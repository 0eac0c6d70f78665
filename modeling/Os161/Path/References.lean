import Mathlib.Algebra.Group.Pi.Basic
import Mathlib.Algebra.Notation.Pi.Basic
import Mathlib.Algebra.Ring.Int.Defs
import Os161.Path.Lookup

set_option autoImplicit false

/-!
# What a path operation does to the references

`Moves d s t`: from `s` to `t` the reference count of every vnode has changed by `d`, and nothing
else that a later call looks at has. Every function gets one lemma that says which references it
leaves with its caller; the lemma of an operation is put together from those of the functions it
calls, in the order of its text.
-/

namespace Os161.Path

open Os161.Lib.Calls

/-- One reference on `v`. -/
def one (v : VnodeRef) : VnodeRef → Int := Pi.single v 1

/-- The reference that a pointer to a vnode, or NULL, stands for. -/
def held : Option VnodeRef → VnodeRef → Int
  | none => 0
  | some v => one v

/-- The reference counts have changed by `d`. -/
structure Moves (d : VnodeRef → Int) (s t : Vfs) : Prop where
  count : ∀ v, (t.refcount v : Int) = s.refcount v + d v
  curdir : t.curdir = s.curdir
  depth : t.depth = s.depth

theorem one_nonneg (v w : VnodeRef) : 0 ≤ one v w := by
  rcases eq_or_ne w v with rfl | h <;> simp [one, *]

namespace Moves

variable {d e : VnodeRef → Int} {s t u : Vfs} {v : VnodeRef}

theorem refl (s : Vfs) : Moves 0 s s := ⟨by simp, rfl, rfl⟩

theorem trans (h : Moves d s t) (h' : Moves e t u) : Moves (d + e) s u := by
  refine ⟨fun v => ?_, h'.curdir.trans h.curdir, h'.depth.trans h.depth⟩
  rw [h'.count, h.count, Pi.add_apply, add_assoc]

/-- A reference that has been added keeps its vnode. -/
theorem pos (h : Moves (d + one v) s t) (hd : 0 ≤ d v) : 0 < t.refcount v := by
  have := h.count v
  simp only [Pi.add_apply, one, Pi.single_eq_same] at this
  omega

theorem pos_one (h : Moves (one v) s t) : 0 < t.refcount v := by
  rw [← zero_add (one v)] at h
  exact h.pos le_rfl

end Moves

section Rules

variable {ok : Panic → Prop} {s t : Vfs} {v : VnodeRef} {d : VnodeRef → Int} {W : World}

/-- The vnode that a result hands out, by the vnode in its value. -/
def handed {α : Type} (vnode : α → Option VnodeRef) : Except Errno α → Option VnodeRef
  | .ok a => vnode a
  | .error _ => none

/-- The function hands out no vnode. -/
def nothing {α : Type} (_ : α) : Option VnodeRef := none

/-- The function leaves with its caller a reference on the vnode it hands out, and no other. -/
def Hands {α : Type} (vnode : α → Option VnodeRef) (s : Vfs) (r : Except Errno α) (t : Vfs) : Prop :=
  Moves (held (handed vnode r)) s t

theorem moves_incref (s : Vfs) (v : VnodeRef) :
    Moves (one v) s { s with refcount := Function.update s.refcount v (s.refcount v + 1) } := by
  refine ⟨fun w => ?_, rfl, rfl⟩
  rcases eq_or_ne w v with rfl | h <;> simp [one, *]

theorem wp_vopIncref : wp ok (vopIncref v) (fun r t => r = .ok () ∧ Moves (one v) s t) s :=
  (wp_modify _).2 ⟨rfl, moves_incref s v⟩

/-- `VOP_DECREF` takes one reference away. -/
theorem wp_vopDecref (h : 0 < s.refcount v ∨ ok .zeroRefcount) :
    wp ok (vopDecref v) (fun r t => r = .ok () ∧ Moves (-one v) s t) s := by
  have hcount : ∀ t : Vfs, 0 < s.refcount v →
      t.refcount = Function.update s.refcount v (s.refcount v - 1) →
      t.curdir = s.curdir → t.depth = s.depth → Moves (-one v) s t := by
    intro t hpos ht hcur hdepth
    refine ⟨fun w => ?_, hcur, hdepth⟩
    rcases eq_or_ne w v with rfl | hne
    · rw [ht, Function.update_self, Pi.neg_apply, one, Pi.single_eq_same]
      omega
    · rw [ht, Function.update_of_ne hne, Pi.neg_apply, one, Pi.single_eq_of_ne hne]
      simp
  rw [vopDecref, wp_bind, wp_get, then_ok]
  simp only [wp_ite, wp_halt, wp_set, true_and]
  refine ⟨fun h0 => h.resolve_left (by omega), fun hne => ⟨fun _ => ?_, fun hle => ?_⟩⟩
  · exact hcount _ (Nat.pos_of_ne_zero hne) rfl rfl rfl
  · have h1 : s.refcount v = 1 := by omega
    refine hcount _ (Nat.pos_of_ne_zero hne) ?_ rfl rfl
    simp [h1]

theorem wp_vnodeCheck {Q : Except Errno Unit → Vfs → Prop} (hpos : 0 < s.refcount v) :
    wp ok (vnodeCheck v) Q s ↔ Q (.ok ()) s := by
  have hne : s.refcount v ≠ 0 := Nat.pos_iff_ne_zero.1 hpos
  simp [vnodeCheck, hne]

theorem wp_now : wp ok now (fun r t => r = .ok s.time ∧ Moves 0 s t) s := by
  rw [now, wp_bind, wp_get, then_ok, wp_bind, wp_set, then_ok, wp_pure]
  exact ⟨rfl, by simp, rfl, rfl⟩

/-- The two calls that every `VOP_` call starts with. -/
theorem wp_checked {α : Type} {f : Nat → VfsCall α} {Q : Except Errno α → Vfs → Prop}
    (hpos : 0 < s.refcount v) (hf : ∀ time t, Moves 0 s t → wp ok (f time) Q t) :
    wp ok (do vnodeCheck v; let t ← now; f t) Q s := by
  rw [wp_bind, wp_vnodeCheck hpos, then_ok, wp_bind]
  refine wp_mono wp_now ?_
  rintro _ t ⟨rfl, h⟩
  exact hf _ t h

theorem wp_handOut (h : Moves 0 s t) (r : Except ErrCode VnodeRef) :
    wp ok (handOut r) (Hands some s) t := by
  cases r with
  | error e => exact (wp_throw _).2 h
  | ok v =>
      rw [handOut, wp_bind]
      refine wp_mono wp_vopIncref ?_
      rintro _ u ⟨rfl, hu⟩
      rw [then_ok, wp_pure, Hands, handed, held, ← zero_add (one v)]
      exact h.trans hu

theorem wp_vopCall (c : Vop) (hpos : 0 < s.refcount c.object) :
    wp ok (vopCall W c) (Hands nothing s) s := by
  refine wp_checked hpos fun time t h => ?_
  cases W.vop time c with
  | none => exact (wp_pure _).2 h
  | some e => exact (wp_throw _).2 h

theorem wp_vopGettype (hpos : 0 < s.refcount v) :
    wp ok (vopGettype W v) (fun _ t => Moves 0 s t) s := by
  refine wp_checked hpos fun time t h => ?_
  cases W.vopGettype time v with
  | ok mode => exact (wp_pure _).2 h
  | error e => exact (wp_throw _).2 h

theorem wp_vopLookup (path : Str) (hpos : 0 < s.refcount v) :
    wp ok (vopLookup W v path) (Hands some s) s :=
  wp_checked hpos fun _ _ h => wp_handOut h _

theorem wp_vopCreat (name : Str) (excl : Bool) (mode : Nat) (hpos : 0 < s.refcount v) :
    wp ok (vopCreat W v name excl mode) (Hands some s) s :=
  wp_checked hpos fun _ _ h => wp_handOut h _

/-- The directory of a directory and a name. -/
def dirOf (x : VnodeRef × Str) : Option VnodeRef := some x.1

/-- The start of a lookup. -/
def startVnode (x : Str × VnodeRef) : Option VnodeRef := some x.2

theorem wp_vopLookparent (path : Str) (hpos : 0 < s.refcount v) :
    wp ok (vopLookparent W v path) (Hands dirOf s) s := by
  refine wp_checked hpos fun time t h => ?_
  rcases W.vopLookparent time v path with e | ⟨dir, name⟩
  · exact (wp_throw _).2 h
  · simp only [wp_bind]
    refine wp_mono wp_vopIncref ?_
    rintro _ u ⟨rfl, hu⟩
    rw [then_ok, wp_pure, Hands, handed, dirOf, held, ← zero_add (one dir)]
    exact h.trans hu

theorem wp_fsopGetroot (fs : FsRef) : wp ok (fsopGetroot W fs) (Hands some s) s := by
  rw [fsopGetroot, wp_bind]
  refine wp_mono wp_now ?_
  rintro _ t ⟨rfl, h⟩
  exact wp_handOut h _

theorem wp_vnFs {Q : Except Errno (Option FsRef) → Vfs → Prop} :
    wp ok (vnFs W v) Q s ↔ Q (.ok (W.vnFs s.time v)) s := by
  rw [vnFs, wp_bind, wp_get, then_ok, wp_pure]

/-! ## Lookup -/

/-- Releasing the big lock ends what has been done under it. -/
theorem wp_biglockRelease (h : Moves d (locked s) t) :
    wp ok biglockRelease (fun r u => r = .ok () ∧ Moves d s u) t := by
  have hdepth : t.depth = s.depth + 1 := h.depth
  rw [biglockRelease, wp_bind, wp_get, then_ok, wp_ite]
  refine ⟨fun h0 => absurd h0 (by omega), fun _ => (wp_set).2 ⟨rfl, h.count, h.curdir, ?_⟩⟩
  show t.depth - 1 = s.depth
  omega

theorem wp_biglockHeld {Q : Except Errno Unit → Vfs → Prop} (h : 0 < s.depth) :
    wp ok biglockHeld Q s ↔ Q (.ok ()) s := by
  have hne : s.depth ≠ 0 := Nat.pos_iff_ne_zero.1 h
  simp [biglockHeld, hne]

/-- A pointer to a vnode is copied, with a reference of its own. -/
theorem wp_share (v : VnodeRef) :
    wp ok (do vopIncref v; pure v : VfsCall VnodeRef) (Hands some s) s := by
  rw [wp_bind]
  refine wp_mono wp_vopIncref ?_
  rintro _ t ⟨rfl, h⟩
  rwa [then_ok, wp_pure]

theorem wp_vfsGetcurdir : wp ok vfsGetcurdir (Hands some s) s := by
  rw [vfsGetcurdir, wp_bind, wp_get, then_ok]
  cases s.curdir with
  | none => exact (wp_throw _).2 (.refl s)
  | some d => exact wp_share d

/-- The assertions on a device entry and on the file system of the current directory. -/
structure Asserts (ok : Panic → Prop) : Prop where
  noFs : ok .noFs
  badKnowndev : ok .badKnowndev

theorem wp_vfsGetroot (hok : Asserts ok) (devname : Str) (h : 0 < s.depth) :
    wp ok (vfsGetroot W devname) (Hands some s) s := by
  rw [vfsGetroot, wp_bind, wp_biglockHeld h, then_ok, wp_bind, wp_get, then_ok]
  cases findRoot W s.knowndevs devname with
  | none => exact (wp_throw _).2 (.refl s)
  | some root =>
      cases root with
      | notMounted => exact (wp_throw _).2 (.refl s)
      | bad => exact (wp_halt _).2 hok.badKnowndev
      | fs fs => exact wp_fsopGetroot fs
      | device vnode => exact wp_share vnode

/-- A function that hands out a vnode, with the path that is left. -/
theorem wp_withPath {m : VfsCall VnodeRef} (path : Str) (h : wp ok m (Hands some s) s) :
    wp ok (do let v ← m; pure (path, v)) (Hands startVnode s) s := by
  rw [wp_bind]
  refine wp_mono h fun r t hr => ?_
  cases r with
  | error e => exact hr
  | ok v => exact (wp_pure _).2 hr

/-- A reference is given back before the function goes on. -/
theorem wp_giveBack {α : Type} {m : VfsCall α} {Q : Except Errno α → Vfs → Prop}
    (h : Moves (d + one v) s t) (hd : 0 ≤ d v) (hm : ∀ u, Moves d s u → wp ok m Q u) :
    wp ok (do vopDecref v; m) Q t := by
  rw [wp_bind]
  refine wp_mono (wp_vopDecref (.inl (h.pos hd))) ?_
  rintro _ u ⟨rfl, hu⟩
  have hall := h.trans hu
  rw [add_neg_cancel_right] at hall
  exact hm u hall

theorem held_nonneg (x : Option VnodeRef) (w : VnodeRef) : 0 ≤ held x w := by
  cases x with
  | none => exact le_rfl
  | some v => exact one_nonneg v w

/-- The root of the file system of the current directory, whose reference is given back. -/
theorem wp_currentRoot (hok : Asserts ok) (path : Str) :
    wp ok (do
      let vn ← vfsGetcurdir
      match ← vnFs W vn with
      | none => halt .noFs
      | some fs => do
          let r ← catching (fsopGetroot W fs)
          vopDecref vn
          let startvn ← returning r
          pure (path, startvn)) (Hands startVnode s) s := by
  rw [wp_bind]
  refine wp_mono wp_vfsGetcurdir fun r t hr => ?_
  cases r with
  | error e => exact hr
  | ok vn =>
      rw [then_ok, wp_bind, wp_vnFs, then_ok]
      rcases W.vnFs t.time vn with _ | fs
      · exact (wp_halt _).2 hok.noFs
      · rw [wp_bind, wp_catching]
        refine wp_mono (wp_fsopGetroot fs) fun r u hu => ?_
        have h : Moves (held (handed some r) + one vn) s u := by
          rw [add_comm]
          exact Moves.trans hr hu
        refine wp_giveBack h (held_nonneg _ _) fun w hw => ?_
        rw [wp_bind, wp_returning]
        cases r with
        | error e => exact hw
        | ok root => exact (wp_pure _).2 hw

theorem wp_startOf (hok : Asserts ok) (path : Str) (h : 0 < s.depth) :
    wp ok (startOf W path) (Hands startVnode s) s := by
  rw [startOf]
  split
  · exact wp_withPath _ (wp_vfsGetroot hok _ h)
  · rw [wp_bind, wp_get, then_ok]
    cases s.bootfs with
    | none => exact (wp_throw _).2 (.refl s)
    | some boot =>
        rw [wp_bind]
        refine wp_mono wp_vopIncref ?_
        rintro _ t ⟨rfl, ht⟩
        rwa [then_ok, wp_pure]
  · exact wp_currentRoot hok _
  · exact wp_withPath _ wp_vfsGetcurdir

theorem wp_getdevice (hok : Asserts ok) (path : Str) (h : 0 < s.depth) :
    wp ok (getdevice W path) (Hands startVnode s) s := by
  rw [getdevice, wp_bind, wp_biglockHeld h, then_ok, wp_ite]
  exact ⟨fun _ => (wp_throw _).2 (.refl s), fun _ => wp_startOf hok path h⟩

/-- The big lock is released, and the function ends. -/
theorem wp_unlock {α : Type} {r : Except Errno α} {Q : Except Errno α → Vfs → Prop}
    (h : Moves d (locked s) t) (hQ : ∀ u, Moves d s u → Q r u) :
    wp ok (do biglockRelease; returning r) Q t := by
  rw [wp_bind]
  refine wp_mono (wp_biglockRelease h) ?_
  rintro _ u ⟨rfl, hu⟩
  exact (wp_returning r).2 (hQ u hu)

theorem wp_vfsLookparent (hok : Asserts ok) (path : Str) :
    wp ok (vfsLookparent W path) (Hands dirOf s) s := by
  rw [vfsLookparent, wp_bind, wp_biglockAcquire, then_ok, wp_bind, wp_catching]
  refine wp_mono (wp_getdevice hok path (Nat.succ_pos s.depth)) fun r t hr => ?_
  rw [then_ok]
  rcases r with e | ⟨path', startvn⟩
  · exact wp_unlock (r := .error e) hr fun u hu => hu
  · have hstart : Moves (one startvn) (locked s) t := hr
    have hcall : wp ok (if path' = [] then throw .EINVAL else vopLookparent W startvn path')
        (Hands dirOf t) t := by
      rw [wp_ite]
      refine ⟨fun _ => (wp_throw _).2 (.refl t), fun _ => wp_vopLookparent path' ?_⟩
      exact hstart.pos_one
    rw [wp_bind, wp_catching]
    refine wp_mono hcall fun r u hu => ?_
    have h : Moves (held (handed dirOf r) + one startvn) (locked s) u := by
      rw [add_comm]
      exact hstart.trans hu
    exact wp_giveBack h (held_nonneg _ _) fun w hw => wp_unlock hw fun _ hx => hx

theorem wp_vfsLookup (hok : Asserts ok) (path : Str) :
    wp ok (vfsLookup W path) (Hands some s) s := by
  rw [vfsLookup, wp_bind, wp_biglockAcquire, then_ok, wp_bind, wp_catching]
  refine wp_mono (wp_getdevice hok path (Nat.succ_pos s.depth)) fun r t hr => ?_
  rw [then_ok]
  rcases r with e | ⟨path', startvn⟩
  · exact wp_unlock (r := .error e) hr fun u hu => hu
  · have hstart : Moves (one startvn) (locked s) t := hr
    simp only [wp_ite]
    refine ⟨fun _ => wp_unlock (r := .ok startvn) hr fun u hu => hu, fun _ => ?_⟩
    rw [wp_bind, wp_catching]
    refine wp_mono (wp_vopLookup path' hstart.pos_one)
      fun r u hu => ?_
    have h : Moves (held (handed some r) + one startvn) (locked s) u := by
      rw [add_comm]
      exact hstart.trans hu
    exact wp_giveBack h (held_nonneg _ _) fun w hw => wp_unlock hw fun _ hx => hx

/-! ## The operations of the system calls -/

theorem held_le (x : Option VnodeRef) (w : VnodeRef) : held x w ≤ 1 := by
  cases x with
  | none => simp [held]
  | some v => rcases eq_or_ne w v with rfl | h <;> simp [held, one, *]

theorem held_nothing {α : Type} (r : Except Errno α) : held (handed nothing r) = 0 := by
  cases r <;> rfl

/-- A call on a vnode that is held, and the release of the vnode. -/
theorem wp_onHeld {α : Type} {vnode : α → Option VnodeRef} {m : VfsCall α}
    (h : Moves (one v) s t) (hm : wp ok m (Hands vnode t) t) :
    wp ok (do let r ← catching m; vopDecref v; returning r) (Hands vnode s) t := by
  rw [wp_bind, wp_catching]
  refine wp_mono hm fun r u hu => ?_
  have h' : Moves (held (handed vnode r) + one v) s u := by
    rw [add_comm]
    exact h.trans hu
  exact wp_giveBack h' (held_nonneg _ _) fun w hw => (wp_returning r).2 hw

theorem wp_onParent (hok : Asserts ok) (path : Str) (call : VnodeRef → Str → Vop)
    (hobj : ∀ dir name, (call dir name).object = dir) :
    wp ok (onParent W path call) (Hands nothing s) s := by
  rw [onParent, wp_bind]
  refine wp_mono (wp_vfsLookparent hok path) fun r t hr => ?_
  rcases r with e | ⟨dir, name⟩
  · exact hr
  · have hdir : Moves (one dir) s t := hr
    refine wp_onHeld hdir (wp_vopCall _ ?_)
    rw [hobj]
    exact hdir.pos_one

theorem wp_vfsReadlink (hok : Asserts ok) (path : Str) :
    wp ok (vfsReadlink W path) (Hands nothing s) s := by
  rw [vfsReadlink, wp_bind]
  refine wp_mono (wp_vfsLookup hok path) fun r t hr => ?_
  cases r with
  | error e => exact hr
  | ok vn =>
      have hvn : Moves (one vn) s t := hr
      exact wp_onHeld hvn (wp_vopCall _ hvn.pos_one)

theorem wp_openVnode (hok : Asserts ok) (path : Str) (openflags : BitVec 32) (mode : Nat) :
    wp ok (openVnode W path openflags mode) (Hands some s) s := by
  rw [openVnode, wp_ite]
  refine ⟨fun _ => ?_, fun _ => wp_vfsLookup hok path⟩
  rw [wp_bind]
  refine wp_mono (wp_vfsLookparent hok path) fun r t hr => ?_
  rcases r with e | ⟨dir, name⟩
  · exact hr
  · have hdir : Moves (one dir) s t := hr
    exact wp_onHeld hdir (wp_vopCreat name _ mode hdir.pos_one)

/-- A step of `vfs_open` on the vnode it holds: on an error the vnode is released. -/
theorem wp_orRelease {m : VfsCall Unit} {k : VfsCall VnodeRef} (h : Moves (one v) s t)
    (hm : wp ok m (Hands nothing t) t) (hk : ∀ u, Moves (one v) s u → wp ok k (Hands some s) u) :
    wp ok (do
      match ← catching m with
      | .error e => do
          vopDecref v
          throw e
      | .ok () => k) (Hands some s) t := by
  rw [wp_bind, wp_catching]
  refine wp_mono hm fun r u hu => ?_
  have hu' : Moves (0 + one v) s u := by
    have := h.trans hu
    rw [add_comm] at this
    cases r <;> exact this
  rw [then_ok]
  cases r with
  | error e => exact wp_giveBack hu' le_rfl fun w hw => (wp_throw _).2 hw
  | ok _ =>
      rw [zero_add] at hu'
      exact hk u hu'

theorem wp_openFound (openflags : BitVec 32) (h : Moves (one v) s t) :
    wp ok (openFound W v openflags) (Hands some s) t := by
  refine wp_orRelease h (wp_vopCall _ h.pos_one) fun u hu => ?_
  rw [wp_ite]
  refine ⟨fun _ => ?_, fun _ => (wp_pure _).2 hu⟩
  have htrunc : wp ok (openTruncate W v (oAccmode openflags != 0)) (Hands nothing u) u := by
    rw [openTruncate, wp_ite]
    exact ⟨fun _ => wp_vopCall _ hu.pos_one, fun _ => (wp_throw _).2 (.refl u)⟩
  exact wp_orRelease hu htrunc fun w hw => (wp_pure _).2 hw

theorem wp_vfsOpen (hok : Asserts ok) (path : Str) (openflags : BitVec 32) (mode : Nat) :
    wp ok (vfsOpen W path openflags mode) (Hands some s) s := by
  rw [vfsOpen, wp_ite]
  refine ⟨fun _ => (wp_throw _).2 (.refl s), fun _ => ?_⟩
  rw [wp_bind]
  refine wp_mono (wp_openVnode hok path openflags mode) fun r t hr => ?_
  cases r with
  | error e => exact hr
  | ok vn => exact wp_openFound openflags hr

/-- Both vnodes are released, whether they are on one file system or not. -/
theorem wp_onSameFs {old newdir : VnodeRef} {call : Vop} (h : Moves (one old + one newdir) s t)
    (hobj : call.object = old ∨ call.object = newdir) :
    wp ok (onSameFs W old newdir call) (Hands nothing s) t := by
  have hboth : ∀ {r : Except Errno Unit} {u : Vfs}, Moves (one old + one newdir) s u →
      wp ok (do vopDecref newdir; vopDecref old; returning r) (Hands nothing s) u := by
    intro r u hu
    refine wp_giveBack hu (one_nonneg _ _) fun w hw => ?_
    rw [← zero_add (one old)] at hw
    refine wp_giveBack hw le_rfl fun x hx => (wp_returning r).2 ?_
    cases r <;> exact hx
  have hpos : 0 < t.refcount call.object := by
    rcases hobj with e | e <;> rw [e]
    · rw [add_comm] at h
      exact h.pos (one_nonneg _ _)
    · exact h.pos (one_nonneg _ _)
  rw [onSameFs, wp_bind, wp_vnFs, then_ok, wp_bind, wp_vnFs, then_ok, wp_ite]
  refine ⟨fun _ => hboth (r := .error .EXDEV) h, fun _ => ?_⟩
  rw [wp_bind, wp_catching]
  refine wp_mono (wp_vopCall call hpos) fun r u hu => hboth ?_
  have hu' : Moves 0 t u := by cases r <;> exact hu
  have := h.trans hu'
  rwa [add_zero] at this

/-- The second lookup of `vfs_rename` and `vfs_link`, with the first vnode held. -/
theorem wp_secondLookup (hok : Asserts ok) {old : VnodeRef} (newpath : Str)
    {call : VnodeRef → Str → Vop} (h : Moves (one old) s t)
    (hobj : ∀ dir name, (call dir name).object = old ∨ (call dir name).object = dir) :
    wp ok (do
      match ← catching (vfsLookparent W newpath) with
      | .error e => do
          vopDecref old
          throw e
      | .ok (newdir, newname) => onSameFs W old newdir (call newdir newname)) (Hands nothing s) t := by
  rw [wp_bind, wp_catching]
  refine wp_mono (wp_vfsLookparent hok newpath) fun r u hu => ?_
  rw [then_ok]
  rcases r with e | ⟨newdir, newname⟩
  · have h' : Moves (0 + one old) s u := by
      rw [add_comm]
      exact h.trans hu
    exact wp_giveBack h' le_rfl fun w hw => (wp_throw _).2 hw
  · exact wp_onSameFs (h.trans hu) (hobj newdir newname)

theorem wp_vfsRename (hok : Asserts ok) (oldpath newpath : Str) :
    wp ok (vfsRename W oldpath newpath) (Hands nothing s) s := by
  rw [vfsRename, wp_bind]
  refine wp_mono (wp_vfsLookparent hok oldpath) fun r t hr => ?_
  rcases r with e | ⟨olddir, oldname⟩
  · exact hr
  · exact wp_secondLookup hok newpath hr fun _ _ => .inl rfl

theorem wp_vfsLink (hok : Asserts ok) (oldpath newpath : Str) :
    wp ok (vfsLink W oldpath newpath) (Hands nothing s) s := by
  rw [vfsLink, wp_bind]
  refine wp_mono (wp_vfsLookup hok oldpath) fun r t hr => ?_
  cases r with
  | error e => exact hr
  | ok oldfile => exact wp_secondLookup hok newpath hr fun _ _ => .inr rfl

/-! ## The current directory -/

/-- Every reference count is what it was, plus one for the vnode handed out and one for the new
current directory, minus one for the old one. -/
structure Accounts {α : Type} (vnode : α → Option VnodeRef) (s : Vfs) (r : Except Errno α)
    (t : Vfs) : Prop where
  count : ∀ v, (t.refcount v : Int) =
    s.refcount v + held (handed vnode r) v + held t.curdir v - held s.curdir v
  depth : t.depth = s.depth

theorem Hands.accounts {α : Type} {vnode : α → Option VnodeRef} {r : Except Errno α}
    (h : Hands vnode s r t) : Accounts vnode s r t := by
  refine ⟨fun v => ?_, h.depth⟩
  rw [h.count, h.curdir, add_sub_cancel_right]

/-- The vnode of the current directory has a reference, or its loss may be noticed. -/
def CwdHeld (ok : Panic → Prop) (s : Vfs) : Prop :=
  ∀ d, s.curdir = some d → 0 < s.refcount d ∨ ok .zeroRefcount

/-- `vfs_setcurdir` changes the current directory exactly when it succeeds. -/
structure Installs (dir : VnodeRef) (s : Vfs) (r : Except Errno Unit) (t : Vfs) : Prop where
  accounts : Accounts nothing s r t
  new : r = .ok () → t.curdir = some dir
  old : r ≠ .ok () → t.curdir = s.curdir

/-- A new current directory is put in, and the old one is released. -/
theorem wp_exchange (hcwd : CwdHeld ok s) (h : Moves (one v) s t) :
    wp ok (match s.curdir with
      | none => pure ()
      | some old => vopDecref old) (Installs v s) { t with curdir := some v } := by
  have hcount : ∀ {u : Vfs}, (∀ w, (u.refcount w : Int) = t.refcount w - held s.curdir w) →
      u.curdir = some v → u.depth = t.depth → Installs v s (.ok ()) u := by
    intro u hu hcur hdepth
    refine ⟨⟨fun w => ?_, hdepth.trans h.depth⟩, fun _ => hcur, fun hne => absurd rfl hne⟩
    rw [hu, h.count, hcur]
    simp only [handed, nothing, held, Pi.zero_apply, add_zero]
  cases hc : s.curdir with
  | none => exact (wp_pure _).2 (hcount (by simp [hc, held]) rfl rfl)
  | some old =>
      have hold : 0 < t.refcount old ∨ ok .zeroRefcount := by
        refine (hcwd old hc).imp_left fun hpos => ?_
        have := h.count old
        have := one_nonneg v old
        omega
      refine wp_mono (wp_vopDecref (s := { t with curdir := some v }) hold) ?_
      rintro _ u ⟨rfl, hu⟩
      refine hcount (fun w => ?_) hu.curdir hu.depth
      rw [hu.count, hc, held, Pi.neg_apply, sub_eq_add_neg]

theorem wp_vopGettype' (hdir : 0 < s.refcount v ∨ ok .zeroRefcount) :
    wp ok (vopGettype W v) (fun _ t => Moves 0 s t) s := by
  rcases Nat.eq_zero_or_pos (s.refcount v) with h0 | hpos
  · have hok := hdir.resolve_left (by omega)
    simp [vopGettype, vnodeCheck, h0, hok]
  · exact wp_vopGettype hpos

theorem wp_vfsSetcurdir (hcwd : CwdHeld ok s) (hdir : 0 < s.refcount v ∨ ok .zeroRefcount) :
    wp ok (vfsSetcurdir W v) (Installs v s) s := by
  have hfail : ∀ {e : Errno} {t : Vfs}, Moves 0 s t → Installs v s (.error e) t := fun h =>
    ⟨Hands.accounts h, fun he => by simp at he, fun _ => h.curdir⟩
  rw [vfsSetcurdir, wp_bind]
  refine wp_mono (wp_vopGettype' hdir) fun r t ht => ?_
  cases r with
  | error e => exact hfail ht
  | ok vtype =>
      rw [then_ok, wp_ite]
      refine ⟨fun _ => (wp_throw _).2 (hfail ht), fun _ => ?_⟩
      rw [wp_bind]
      refine wp_mono wp_vopIncref ?_
      rintro _ u ⟨rfl, hu⟩
      have hall : Moves (one v) s u := by
        rw [← zero_add (one v)]
        exact ht.trans hu
      rw [then_ok, wp_bind, wp_get, then_ok, wp_bind, wp_set, then_ok, hall.curdir]
      exact wp_exchange hcwd hall

theorem wp_vfsChdir (hok : Asserts ok) (hcwd : CwdHeld ok s) (path : Str) :
    wp ok (vfsChdir W path) (Accounts nothing s) s := by
  rw [vfsChdir, wp_bind]
  refine wp_mono (wp_vfsLookup hok path) fun r t hr => ?_
  cases r with
  | error e => exact Hands.accounts (show Hands nothing s (.error e) t from hr)
  | ok vn =>
      have hvn : Moves (one vn) s t := hr
      have hcwd' : CwdHeld ok t := fun d hd => by
        rw [hvn.curdir] at hd
        refine (hcwd d hd).imp_left fun hpos => ?_
        have := hvn.count d
        have := one_nonneg vn d
        omega
      rw [then_ok, wp_bind, wp_catching]
      refine wp_mono (wp_vfsSetcurdir hcwd' (.inl hvn.pos_one)) fun r u hu => ?_
      have hcount := hu.accounts.count
      -- the reference of the lookup is still there: the old directory has only lost its own
      have hpos : 0 < u.refcount vn := by
        have hnew := hcount vn
        have hone := hvn.pos_one
        rw [held_nothing, Pi.zero_apply] at hnew
        by_cases hr' : r = .ok ()
        · rw [hu.new hr'] at hnew
          have hle := held_le t.curdir vn
          have heq : held (some vn) vn = 1 := Pi.single_eq_same _ _
          omega
        · rw [hu.old hr'] at hnew
          omega
      rw [then_ok, wp_bind]
      refine wp_mono (wp_vopDecref (.inl hpos)) ?_
      rintro _ w ⟨rfl, hw⟩
      refine (wp_returning r).2 ⟨fun x => ?_, ?_⟩
      · rw [hw.count, hcount, hvn.count, hw.curdir, ← hvn.curdir, Pi.neg_apply]
        omega
      · rw [hw.depth, hu.accounts.depth, hvn.depth]

end Rules

/-! ## Every operation -/

/-- The path operations, with their arguments. -/
inductive PathOp where
  | open (path : Str) (openflags : BitVec 32) (mode : Nat)
  | remove (path : Str)
  | rename (oldpath newpath : Str)
  | link (oldpath newpath : Str)
  | symlink (contents path : Str)
  | readlink (path : Str)
  | mkdir (path : Str) (mode : Nat)
  | rmdir (path : Str)
  | lookup (path : Str)
  | lookparent (path : Str)
  | chdir (path : Str)
  | setcurdir (dir : VnodeRef)

/-- A call that hands out no vnode. -/
def noVnode {α : Type} (m : VfsCall α) : VfsCall (Option VnodeRef) := do
  let _ ← m
  pure none

/-- The call, and the vnode it hands back. -/
def PathOp.call (W : World) : PathOp → VfsCall (Option VnodeRef)
  | .open path openflags mode => some <$> vfsOpen W path openflags mode
  | .remove path => noVnode (vfsRemove W path)
  | .rename oldpath newpath => noVnode (vfsRename W oldpath newpath)
  | .link oldpath newpath => noVnode (vfsLink W oldpath newpath)
  | .symlink contents path => noVnode (vfsSymlink W contents path)
  | .readlink path => noVnode (vfsReadlink W path)
  | .mkdir path mode => noVnode (vfsMkdir W path mode)
  | .rmdir path => noVnode (vfsRmdir W path)
  | .lookup path => some <$> vfsLookup W path
  | .lookparent path => (fun x => some x.1) <$> vfsLookparent W path
  | .chdir path => noVnode (vfsChdir W path)
  | .setcurdir dir => noVnode (vfsSetcurdir W dir)

/-- The vnodes that the operation finds with a reference: that of the current directory, and the
one its caller passes. -/
structure Referenced (s : Vfs) (op : PathOp) : Prop where
  curdir : ∀ d, s.curdir = some d → 0 < s.refcount d
  passed : ∀ dir, op = .setcurdir dir → 0 < s.refcount dir

section Operations

variable {ok : Panic → Prop} {s t : Vfs} {W : World}

theorem wp_noVnode {α : Type} {m : VfsCall α} (h : wp ok m (Accounts nothing s) s) :
    wp ok (noVnode m) (Accounts id s) s := by
  rw [noVnode, wp_bind]
  refine wp_mono h fun r t hr => ?_
  cases r with
  | error e => exact ⟨hr.count, hr.depth⟩
  | ok a => exact (wp_pure _).2 ⟨hr.count, hr.depth⟩

theorem wp_hands {α : Type} {m : VfsCall α} {vnode : α → Option VnodeRef}
    (h : wp ok m (Hands vnode s) s) : wp ok (vnode <$> m) (Accounts id s) s := by
  rw [wp_map]
  refine wp_mono h fun r t hr => ?_
  have := hr.accounts
  cases r with
  | error e => exact ⟨this.count, this.depth⟩
  | ok a => exact ⟨this.count, this.depth⟩

theorem wp_call (hok : Asserts ok) (hcwd : CwdHeld ok s) (op : PathOp)
    (hpassed : ∀ dir, op = .setcurdir dir → 0 < s.refcount dir ∨ ok .zeroRefcount) :
    wp ok (op.call W) (Accounts id s) s := by
  have hnone : ∀ {m : VfsCall Unit}, wp ok m (Hands nothing s) s →
      wp ok (noVnode m) (Accounts id s) s := fun h =>
    wp_noVnode (wp_mono h fun _ _ => Hands.accounts)
  cases op with
  | «open» path openflags mode => exact wp_hands (wp_vfsOpen hok path openflags mode)
  | remove path => exact hnone (wp_onParent hok path _ fun _ _ => rfl)
  | rename oldpath newpath => exact hnone (wp_vfsRename hok oldpath newpath)
  | link oldpath newpath => exact hnone (wp_vfsLink hok oldpath newpath)
  | symlink contents path => exact hnone (wp_onParent hok path _ fun _ _ => rfl)
  | readlink path => exact hnone (wp_vfsReadlink hok path)
  | mkdir path mode => exact hnone (wp_onParent hok path _ fun _ _ => rfl)
  | rmdir path => exact hnone (wp_onParent hok path _ fun _ _ => rfl)
  | lookup path => exact wp_hands (wp_vfsLookup hok path)
  | lookparent path => exact @wp_hands _ _ _ _ dirOf (wp_vfsLookparent hok path)
  | chdir path => exact wp_noVnode (wp_vfsChdir hok hcwd path)
  | setcurdir dir =>
      exact wp_noVnode (wp_mono (wp_vfsSetcurdir hcwd (hpassed dir rfl)) fun _ _ h => h.accounts)

end Operations

end Os161.Path
