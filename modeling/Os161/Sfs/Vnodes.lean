import Os161.Lib.Runs
import Os161.Sfs.Reclaiming
import Os161.Sfs.Vnops

set_option autoImplicit false

/-!
# Vnodes in memory, over whole runs

`sfs_loadvnode` and `sfs_reclaim` of `kern/fs/sfs/sfs_inode.c` with `vnode_incref` and
`vnode_decref` of `kern/vfs/vnode.c`, in any order, between any holders of references. An update
stands for what a holder does to an inode in memory: it changes `sv_i` and sets `sv_dirty`. The disk
may report errors and `kmalloc` may fail in every step.

`vfs_biglock` is held over all of `sfs_loadvnode` and of `sfs_reclaim`, so that each is one step.
Between the two parts of giving up the last reference, `vnode_decref` and `sfs_reclaim`, there may be
any others.
-/

namespace Os161.Sfs.Vnodes

open Os161.Lib.Calls
open Os161.Lib.Runs (Reach anyStep)

/-! ## Runs -/

/-- What is done with vnodes. -/
inductive Event where
  | load (ino : Daddr) (forcetype : UInt16)
  | update (v : Ptr) (d : Dinode)
  | incref (v : Ptr)
  | decref (v : Ptr)
  | reclaim (v : Ptr)

/-- The call of an event. -/
def Event.call : Event → FsCall Outcome
  | load ino forcetype => return .vnode (← loadvnode ino forcetype)
  | update v d => do modify fun s => s.updateInode v d; return .none
  | incref v => do Sfs.incref v; return .none
  | decref v => return .reclaims (← Sfs.decref v)
  | reclaim v => do Sfs.reclaim v; return .none

/-- Only a vnode to which there is a reference is handed to a function. -/
def Event.Enabled (σ : System) : Event → Prop
  | load _ _ => True
  | update v _ | incref v | decref v => v ∈ σ.held
  | reclaim v => v ∈ σ.closing

/-- The references after an event: `sfs_loadvnode` hands out one, and the one that `vnode_decref`
does not give back is passed on to `sfs_reclaim`. -/
def next (σ : System) (e : Event) (r : Except Errno Outcome) (s : Fs) : System :=
  match e, r with
  | .load _ _, .ok (.vnode v) => { σ with fs := s, held := v :: σ.held }
  | .incref v, _ => { σ with fs := s, held := v :: σ.held }
  | .decref v, .ok (.reclaims true) =>
      { fs := s, held := σ.held.erase v, closing := v :: σ.closing }
  | .decref v, _ => { σ with fs := s, held := σ.held.erase v }
  | .reclaim v, _ => { σ with fs := s, closing := σ.closing.erase v }
  | _, _ => { σ with fs := s }

/-- An event, with what the disk and `kmalloc` do while it runs. -/
structure Turn where
  event : Event
  media : List (Option Errno)
  memory : List (Option Ptr)

/-- One step. -/
def Step (σ : System) (a : Turn) (σ' : System) : Prop :=
  a.event.Enabled σ ∧ ∃ r s,
    a.event.call.result { σ.fs with media := a.media, memory := a.memory } = .ok (r, s) ∧
      σ' = next σ a.event r s

/-- A volume that has just been mounted: nothing is in memory. -/
structure Fresh (σ : System) : Prop where
  vnodes : σ.fs.vnodes = []
  held : σ.held = []
  closing : σ.closing = []

/-- No two vnodes in memory are for the same inode. -/
structure OneVnode (s : Fs) : Prop where
  nodup : s.vnodes.Nodup
  unique : ∀ v ∈ s.vnodes, ∀ w ∈ s.vnodes, s.ino v = s.ino w → v = w

/-- A vnode to which somebody has a reference has not been freed. -/
def Referenced (σ : System) : Prop := ∀ v, v ∈ σ.held ∨ v ∈ σ.closing → v ∈ σ.fs.vnodes

/-- What leaves memory with a nonzero link count is on the disk. -/
def Saved (σ σ' : System) : Prop :=
  ∀ v ∈ σ.fs.vnodes, v ∉ σ'.fs.vnodes → (σ.fs.inode v).linkcount ≠ 0 →
    Dinode.ofBlock (σ'.fs.disk (σ.fs.ino v)) = σ.fs.inode v

/-- The disk does not report `EIO` for the block of an inode that `sfs_reclaim` has to write before
it lets go of it. -/
def WritesBack (σ : System) (a : Turn) : Prop :=
  ∀ v, a.event = .reclaim v → σ.fs.refcount v = 1 → (σ.fs.inode v).linkcount ≠ 0 →
    σ.fs.dirty v = true → a.media.head?.join ≠ some Errno.EIO

/-! ## The invariant -/

/-- The references are counted, and the inode of a vnode that is not dirty is on the disk. A count
can be larger: what `sfs_reclaim` keeps after an error is never given back. -/
structure Inv (σ : System) : Prop where
  table : OneVnode σ.fs
  referenced : Referenced σ
  counted : ∀ v, σ.held.count v + σ.closing.count v ≤ σ.fs.refcount v
  clean : ∀ v ∈ σ.fs.vnodes, σ.fs.dirty v = false →
    Dinode.ofBlock (σ.fs.disk (σ.fs.ino v)) = σ.fs.inode v

theorem Fresh.inv {σ : System} (h : Fresh σ) : Inv σ where
  table := by
    constructor
    · rw [h.vnodes]
      exact List.nodup_nil
    · intro v hv
      rw [h.vnodes] at hv
      cases hv
  referenced := by
    intro v hv
    rw [h.held, h.closing] at hv
    rcases hv with hv | hv <;> cases hv
  counted v := by simp [h.held, h.closing]
  clean v hv := by
    rw [h.vnodes] at hv
    cases hv

section Steps

variable {s t : Fs} {v : Ptr} {held closing held' closing' : List Ptr}

/-- Only references come and go, and their counts. -/
theorem Inv.recount (h : Inv ⟨s, held, closing⟩) {f : Ptr → Nat}
    (hmem : ∀ v, v ∈ held' ∨ v ∈ closing' → v ∈ s.vnodes)
    (hcount : ∀ v, held'.count v + closing'.count v ≤ f v) :
    Inv ⟨{ s with refcount := f }, held', closing'⟩ where
  table := ⟨h.table.nodup, h.table.unique⟩
  referenced := hmem
  counted := hcount
  clean := h.clean

theorem Inv.same (h : Inv ⟨s, held, closing⟩) (hs : SameVnodes s t) : Inv ⟨t, held, closing⟩ where
  table := by
    constructor
    · rw [hs.vnodes]
      exact h.table.nodup
    · rw [hs.vnodes, hs.ino]
      exact h.table.unique
  referenced v hv := by
    rw [hs.vnodes]
    exact h.referenced v hv
  counted v := by
    rw [hs.refcount]
    exact h.counted v
  clean v hv hdirty := by
    rw [hs.vnodes] at hv
    rw [hs.dirty] at hdirty
    rw [hs.disk, hs.ino, hs.inode]
    exact h.clean v hv hdirty

/-- A reference to a vnode in the table is taken. -/
theorem Inv.increfed (h : Inv ⟨s, held, closing⟩) (hv : v ∈ s.vnodes) :
    Inv ⟨increfed s v, v :: held, closing⟩ := by
  refine h.recount (fun w hw => ?_) fun w => ?_
  · rcases hw with hw | hw
    · rcases List.mem_cons.1 hw with rfl | hw
      · exact hv
      · exact h.referenced w (.inl hw)
    · exact h.referenced w (.inr hw)
  · have hcount := h.counted w
    change held.count w + closing.count w ≤ s.refcount w at hcount
    by_cases hw : w = v
    · rw [hw] at hcount ⊢
      rw [List.count_cons_self, Function.update_self]
      omega
    · rw [List.count_cons_of_ne (Ne.symm hw), Function.update_of_ne hw]
      exact hcount

/-- A vnode is loaded that was not in the table. -/
theorem Inv.added {ino : Daddr} {d : Dinode} (h : Inv ⟨s, held, closing⟩)
    (ha : Added s ino v d t) : Inv ⟨t, v :: held, closing⟩ := by
  have hmem : ∀ w, w ∈ t.vnodes ↔ w ∈ s.vnodes ∨ w = v := fun w => by
    rw [ha.vnodes, List.mem_append, List.mem_singleton]
  have hold : ∀ w ∈ s.vnodes, w ≠ v := by
    rintro w hw rfl
    exact ha.unused hw
  refine ⟨⟨?_, fun a hamem b hbmem hab => ?_⟩, fun w hw => ?_, fun w => ?_, fun w hw hdirty => ?_⟩
  · change t.vnodes.Nodup
    rw [ha.vnodes]
    exact h.table.nodup.append (List.nodup_singleton v)
      (List.disjoint_singleton.2 ha.unused)
  · change t.ino a = t.ino b at hab
    rw [ha.ino] at hab
    rcases (hmem a).1 hamem with hs | rfl <;> rcases (hmem b).1 hbmem with hb | rfl
    · rw [Function.update_of_ne (hold a hs), Function.update_of_ne (hold b hb)] at hab
      exact h.table.unique a hs b hb hab
    · rw [Function.update_of_ne (hold a hs), Function.update_self] at hab
      exact absurd hab (ha.unloaded a hs)
    · rw [Function.update_of_ne (hold b hb), Function.update_self] at hab
      exact absurd hab.symm (ha.unloaded b hb)
    · rfl
  · refine (hmem w).2 ?_
    rcases hw with hw | hw
    · rcases List.mem_cons.1 hw with rfl | hw
      · exact .inr rfl
      · exact .inl (h.referenced w (.inl hw))
    · exact .inl (h.referenced w (.inr hw))
  · have hcount := h.counted w
    change held.count w + closing.count w ≤ s.refcount w at hcount
    change (v :: held).count w + closing.count w ≤ t.refcount w
    rw [ha.refcount]
    by_cases hw : w = v
    · -- nobody had a reference to an address at which there was no vnode
      have hheld : v ∉ held := fun hv => ha.unused (h.referenced v (.inl hv))
      have hclosing : v ∉ closing := fun hv => ha.unused (h.referenced v (.inr hv))
      rw [hw, List.count_cons_self, Function.update_self, List.count_eq_zero_of_not_mem hheld,
        List.count_eq_zero_of_not_mem hclosing]
    · rw [List.count_cons_of_ne (Ne.symm hw), Function.update_of_ne hw]
      exact hcount
  · change t.dirty w = false at hdirty
    change Dinode.ofBlock (t.disk (t.ino w)) = t.inode w
    obtain ⟨b, hb, hclean⟩ := ha.clean
    rw [hb] at hdirty
    rw [ha.disk, ha.ino, ha.inode]
    rcases (hmem w).1 hw with hw | rfl
    · rw [Function.update_of_ne (hold w hw)] at hdirty
      rw [Function.update_of_ne (hold w hw), Function.update_of_ne (hold w hw)]
      exact h.clean w hw hdirty
    · rw [Function.update_self] at hdirty
      rw [Function.update_self, Function.update_self]
      exact hclean hdirty

/-- The inode of a vnode is changed, and it is dirty. -/
theorem Inv.touched (h : Inv ⟨s, held, closing⟩) (ht : Touched v s t) :
    Inv ⟨t, held, closing⟩ where
  table := by
    constructor
    · rw [ht.vnodes]
      exact h.table.nodup
    · rw [ht.vnodes, ht.ino]
      exact h.table.unique
  referenced w hw := by
    rw [ht.vnodes]
    exact h.referenced w hw
  counted w := by
    rw [ht.refcount]
    exact h.counted w
  clean w hw hdirty := by
    change t.dirty w = false at hdirty
    change Dinode.ofBlock (t.disk (t.ino w)) = t.inode w
    rw [ht.vnodes] at hw
    rw [ht.disk, ht.ino]
    by_cases hwv : w = v
    · subst hwv
      rcases ht.marked with htrue | ⟨hinode, hsame⟩
      · rw [htrue] at hdirty
        cases hdirty
      · rw [hinode]
        exact h.clean w hw (hsame.symm.trans hdirty)
    · rw [ht.inode w hwv]
      exact h.clean w hw ((ht.dirty w hwv).symm.trans hdirty)

/-- A holder changes an inode and sets `sv_dirty`. -/
theorem Inv.updated (h : Inv ⟨s, held, closing⟩) (v : Ptr) (d : Dinode) :
    Inv ⟨s.updateInode v d, held, closing⟩ where
  table := ⟨h.table.nodup, h.table.unique⟩
  referenced := h.referenced
  counted := h.counted
  clean w hw hdirty := by
    have hwv : w ≠ v := by
      rintro rfl
      change (s.updateInode w d).dirty w = false at hdirty
      rw [dirty_updateInode] at hdirty
      cases hdirty
    change Dinode.ofBlock (s.disk (s.ino w)) = Function.update s.inode v d w
    change Function.update s.dirty v true w = false at hdirty
    rw [Function.update_of_ne hwv] at hdirty ⊢
    exact h.clean w hw hdirty

/-- A vnode to which there is only the reference passed to `sfs_reclaim` is freed. -/
theorem Inv.freed (h : Inv ⟨s, held, closing⟩) (hv : v ∈ closing) (hf : Freed v s t) :
    Inv ⟨t, held, closing.erase v⟩ := by
  have hcount := h.counted v
  change held.count v + closing.count v ≤ s.refcount v at hcount
  rw [hf.alone] at hcount
  have hpos := List.count_pos_iff.2 hv
  have hmem : ∀ w, w ∈ t.vnodes ↔ w ≠ v ∧ w ∈ s.vnodes := fun w => by
    rw [hf.vnodes]
    exact h.table.nodup.mem_erase_iff
  -- so nobody else has one
  have hheld : v ∉ held := fun hmem' => by
    have := List.count_pos_iff.2 hmem'
    omega
  have hclosing : ∀ w, (closing.erase v).count w = if w = v then 0 else closing.count w := by
    intro w
    by_cases hw : w = v
    · rw [if_pos hw, hw, List.count_erase_self]
      omega
    · rw [if_neg hw, List.count_erase_of_ne hw]
  refine ⟨⟨?_, fun a ha b hb hab => ?_⟩, fun w hw => ?_, fun w => ?_, fun w hw hdirty => ?_⟩
  · change t.vnodes.Nodup
    rw [hf.vnodes]
    exact h.table.nodup.erase v
  · change t.ino a = t.ino b at hab
    rw [hf.ino] at hab
    exact h.table.unique a ((hmem a).1 ha).2 b ((hmem b).1 hb).2 hab
  · refine (hmem w).2 ?_
    rcases hw with hw | hw
    · refine ⟨?_, h.referenced w (.inl hw)⟩
      rintro rfl
      exact hheld hw
    · refine ⟨?_, h.referenced w (.inr (List.mem_of_mem_erase hw))⟩
      rintro rfl
      have hzero := hclosing w
      have hcopy := List.count_pos_iff.2 hw
      change 0 < (closing.erase w).count w at hcopy
      rw [if_pos rfl] at hzero
      omega
  · have hw := h.counted w
    change held.count w + closing.count w ≤ s.refcount w at hw
    change held.count w + (closing.erase v).count w ≤ t.refcount w
    rw [hf.refcount, hclosing]
    by_cases hwv : w = v
    · rw [hwv, if_pos rfl, Function.update_self, List.count_eq_zero_of_not_mem hheld]
    · rw [if_neg hwv, Function.update_of_ne hwv]
      exact hw
  · obtain ⟨hwv, hw⟩ := (hmem w).1 hw
    change t.dirty w = false at hdirty
    change Dinode.ofBlock (t.disk (t.ino w)) = t.inode w
    rw [hf.dirty w hwv] at hdirty
    -- the block that has been written is of no other vnode
    have hblock : s.ino w ≠ s.ino v := fun hino =>
      hwv (h.table.unique w hw v (h.referenced v (.inr hv)) hino)
    rw [hf.ino, hf.inode w hwv, hf.disk _ hblock]
    exact h.clean w hw hdirty

/-- One of the references is given back: the last one is passed on to `sfs_reclaim`. -/
theorem Inv.wp_decref (h : Inv ⟨s, held, closing⟩) (hv : v ∈ held) :
    wp (fun _ => True) (Sfs.decref v) (fun r t =>
      Inv (next ⟨s, held, closing⟩ (.decref v) (r.map Outcome.reclaims) t) ∧
        t.vnodes = s.vnodes) s := by
  have hcount := h.counted
  have hpos := List.count_pos_iff.2 hv
  have hheld : ∀ w, (held.erase v).count w = if w = v then held.count v - 1 else held.count w := by
    intro w
    by_cases hw : w = v
    · rw [if_pos hw, hw, List.count_erase_self]
    · rw [if_neg hw, List.count_erase_of_ne hw]
  rw [Sfs.decref, wp_bind, wp_get, then_ok, wp_ite, wp_halt, wp_ite]
  refine ⟨fun _ => trivial, fun _ => ⟨fun hmany => ?_, fun _ => ?_⟩⟩
  · rw [wp_bind, wp_set, then_ok, wp_pure]
    refine ⟨h.recount (fun w hw => ?_) fun w => ?_, rfl⟩
    · rcases hw with hw | hw
      · exact h.referenced w (.inl (List.mem_of_mem_erase hw))
      · exact h.referenced w (.inr hw)
    · have hw := hcount w
      change held.count w + closing.count w ≤ s.refcount w at hw
      change (held.erase v).count w + closing.count w ≤ _
      rw [hheld]
      by_cases hwv : w = v
      · rw [if_pos hwv, hwv, Function.update_self]
        rw [hwv] at hw
        omega
      · rw [if_neg hwv, Function.update_of_ne hwv]
        exact hw
  · rw [wp_pure]
    refine ⟨h.recount (f := s.refcount) (fun w hw => ?_) fun w => ?_, rfl⟩
    · rcases hw with hw | hw
      · exact h.referenced w (.inl (List.mem_of_mem_erase hw))
      · rcases List.mem_cons.1 hw with rfl | hw
        · exact h.referenced w (.inl hv)
        · exact h.referenced w (.inr hw)
    · have hw := hcount w
      change held.count w + closing.count w ≤ s.refcount w at hw
      change (held.erase v).count w + (v :: closing).count w ≤ _
      rw [hheld]
      by_cases hwv : w = v
      · rw [if_pos hwv, hwv, List.count_cons_self]
        rw [hwv] at hw
        omega
      · rw [if_neg hwv, List.count_cons_of_ne (Ne.symm hwv)]
        exact hw

/-- What is on the disk when a vnode is freed. -/
theorem Inv.saved (h : Inv ⟨s, held, closing⟩) (hv : v ∈ closing) (hf : Freed v s t)
    (hmedia : s.refcount v = 1 → (s.inode v).linkcount ≠ 0 → s.dirty v = true →
      s.media.head?.join ≠ some Errno.EIO) :
    (s.inode v).linkcount ≠ 0 → Dinode.ofBlock (t.disk (s.ino v)) = s.inode v := by
  intro hne
  cases hdirty : s.dirty v with
  | false =>
      rw [hf.clean hne hdirty]
      exact h.clean v (h.referenced v (.inr hv)) hdirty
  | true =>
      rw [hf.written hne hdirty (hmedia hf.alone hne hdirty)]
      exact Dinode.ofBlock_toBlock _

theorem next_fs (σ : System) (e : Event) (r : Except Errno Outcome) : (next σ e r t).fs = t := by
  unfold next
  split <;> rfl

/-- Where the table loses no vnode, nothing has to be saved. -/
theorem saved_of_kept {σ σ' : System} (h : ∀ v ∈ σ.fs.vnodes, v ∈ σ'.fs.vnodes) : Saved σ σ' :=
  fun v hv hgone => absurd (h v hv) hgone

/-- `sfs_reclaim` of a vnode that has been passed to it. -/
theorem Inv.reclaimed (h : Inv ⟨s, held, closing⟩) (hv : v ∈ closing) {r : Except Errno Unit}
    (hr : Reclaimed v s r t) : Inv ⟨t, held, closing.erase v⟩ ∧
      ((s.refcount v = 1 → (s.inode v).linkcount ≠ 0 → s.dirty v = true →
        s.media.head?.join ≠ some Errno.EIO) →
        Saved ⟨s, held, closing⟩ ⟨t, held, closing.erase v⟩) := by
  have hcount := h.counted v
  change held.count v + closing.count v ≤ s.refcount v at hcount
  have hpos := List.count_pos_iff.2 hv
  -- a reference less, and perhaps a count less
  have hgiven : ∀ {f : Ptr → Nat}, s.refcount v - 1 ≤ f v →
      (∀ w, w ≠ v → f w = s.refcount w) → Inv ⟨{ s with refcount := f }, held, closing.erase v⟩ := by
    intro f hf hother
    refine h.recount (fun w hw => ?_) fun w => ?_
    · rcases hw with hw | hw
      · exact h.referenced w (.inl hw)
      · exact h.referenced w (.inr (List.mem_of_mem_erase hw))
    · by_cases hwv : w = v
      · rw [hwv, List.count_erase_self]
        omega
      · rw [List.count_erase_of_ne hwv, hother w hwv]
        exact h.counted w
  cases hr with
  | busy hmany =>
      refine ⟨hgiven ?_ fun w hw => Function.update_of_ne hw _ _, fun _ => saved_of_kept ?_⟩
      · exact Nat.le_of_eq (Function.update_self v _ s.refcount).symm
      · exact fun w hw => hw
  | kept ht =>
      refine ⟨?_, fun _ => saved_of_kept fun w hw => ?_⟩
      · exact (hgiven (f := s.refcount) (Nat.sub_le _ 1) fun w _ => rfl).touched ht
      · change w ∈ t.vnodes
        rw [ht.vnodes]
        exact hw
  | freed hf =>
      refine ⟨h.freed hv hf, fun hmedia w hw hgone hlinked => ?_⟩
      -- only this vnode is gone
      have hwv : w = v := by
        by_contra hne
        refine hgone ?_
        change w ∈ t.vnodes
        rw [hf.vnodes]
        exact (List.mem_erase_of_ne hne).2 hw
      subst hwv
      exact h.saved hv hf hmedia hlinked

/-- The call of an event, one case for each event. -/
theorem Inv.wp_call (h : Inv ⟨s, held, closing⟩) (e : Event)
    (henabled : e.Enabled ⟨s, held, closing⟩) :
    wp (fun _ => True) e.call (fun r t =>
      Inv (next ⟨s, held, closing⟩ e r t) ∧
        (WritesBack ⟨s, held, closing⟩ ⟨e, s.media, s.memory⟩ →
          Saved ⟨s, held, closing⟩ (next ⟨s, held, closing⟩ e r t))) s := by
  cases e with
  | load ino forcetype =>
      rw [Event.call, wp_bind]
      refine wp_mono (wp_loadvnode ino forcetype) fun r t hr => ?_
      cases hr with
      | found hv _ =>
          rw [then_ok, wp_pure]
          exact ⟨h.increfed hv, fun _ => saved_of_kept fun w hw => hw⟩
      | added ha =>
          rw [then_ok, wp_pure]
          refine ⟨h.added ha, fun _ => saved_of_kept fun w hw => ?_⟩
          rw [next_fs, ha.vnodes]
          exact List.mem_append_left _ hw
      | failed hs =>
          rw [then_error]
          refine ⟨h.same hs, fun _ => saved_of_kept fun w hw => ?_⟩
          rw [next_fs, hs.vnodes]
          exact hw
  | update v d =>
      rw [Event.call, wp_bind, wp_modify, then_ok, wp_pure]
      exact ⟨h.updated v d, fun _ => saved_of_kept fun w hw => hw⟩
  | incref v =>
      rw [Event.call, wp_bind, Sfs.incref, wp_modify, then_ok, wp_pure]
      exact ⟨h.increfed (h.referenced v (.inl henabled)), fun _ => saved_of_kept fun w hw => hw⟩
  | decref v =>
      rw [Event.call, wp_bind]
      refine wp_mono (h.wp_decref henabled) fun r t ht => ?_
      obtain ⟨hinv, hvnodes⟩ := ht
      cases r with
      | ok last =>
          rw [then_ok, wp_pure]
          refine ⟨hinv, fun _ => saved_of_kept fun w hw => ?_⟩
          rw [next_fs, hvnodes]
          exact hw
      | error e =>
          rw [then_error]
          refine ⟨hinv, fun _ => saved_of_kept fun w hw => ?_⟩
          rw [next_fs, hvnodes]
          exact hw
  | reclaim v =>
      rw [Event.call, wp_bind]
      refine wp_mono (wp_reclaim v s) fun r t hr => ?_
      obtain ⟨hinv, hsaved⟩ := h.reclaimed henabled hr
      cases r with
      | ok _ =>
          rw [then_ok, wp_pure]
          exact ⟨hinv, fun hmedia => hsaved (hmedia v rfl)⟩
      | error e =>
          rw [then_error]
          exact ⟨hinv, fun hmedia => hsaved (hmedia v rfl)⟩

/-- One step. -/
theorem Inv.step {σ σ' : System} {a : Turn} (h : Inv σ) (hstep : Step σ a σ') :
    Inv σ' ∧ (WritesBack σ a → Saved σ σ') := by
  obtain ⟨s, held, closing⟩ := σ
  obtain ⟨e, media, memory⟩ := a
  obtain ⟨henabled, r, t, hcall, rfl⟩ := hstep
  -- what the disk and `kmalloc` will do says nothing about the vnodes
  have h₀ : Inv ⟨{ s with media := media, memory := memory }, held, closing⟩ :=
    h.same ⟨rfl, rfl, rfl, rfl, rfl, rfl⟩
  exact (h₀.wp_call e henabled).returns hcall

end Steps

theorem Fresh.reaches_inv {σ₀ σ : System} (hfresh : Fresh σ₀) (hrun : Reach Step anyStep σ₀ σ) :
    Inv σ :=
  hrun.invariant (fun _ _ _ h _ hstep => (h.step hstep).1) hfresh.inv

/-- In every run, whatever the disk and `kmalloc` do, there is one vnode for an inode and what is
referenced has not been freed. What leaves memory is on the disk, if the step that lets go of it
does not meet `EIO` there. -/
theorem inodes_kept {σ₀ σ : System} (hfresh : Fresh σ₀) (hrun : Reach Step anyStep σ₀ σ) :
    OneVnode σ.fs ∧ Referenced σ ∧ ∀ a σ', Step σ a σ' → WritesBack σ a → Saved σ σ' := by
  have hinv := hfresh.reaches_inv hrun
  exact ⟨hinv.table, hinv.referenced, fun a σ' hstep => (hinv.step hstep).2⟩

/-! ## A volume with one file -/

/-- A file without blocks. -/
def emptyInode : Dinode := smallInode 0 (fun _ => 0) 0

/-- The same file when it has grown. -/
def grownInode : Dinode := { emptyInode with size := 512 }

/-- The volume of the file, which is in the block 3. -/
def oneFile : System where
  fs := { smallVolume 4 emptyInode fun _ => emptyInode.toBlock with vnodes := [] }
  held := []
  closing := []

/-- The file has been loaded. -/
def loaded : System where
  fs :=
    { oneFile.fs with
      vnodes := [1]
      refcount := Function.update oneFile.fs.refcount 1 1
      ino := Function.update oneFile.fs.ino 1 3
      inode := Function.update oneFile.fs.inode 1 emptyInode
      dirty := Function.update oneFile.fs.dirty 1 false }
  held := [1]
  closing := []

/-- The file has grown, and the reference to it has been given back. -/
def closed : System where
  fs := loaded.fs.updateInode 1 grownInode
  held := []
  closing := [1]

theorem fresh_oneFile : Fresh oneFile := ⟨rfl, rfl, rfl⟩

theorem step_load_oneFile : Step oneFile ⟨.load 3 typeInval, [], []⟩ loaded := by
  have hrun : wp (fun _ => False) (Event.load 3 typeInval).call
      (fun r t => r = .ok (.vnode 1) ∧ t = loaded.fs) oneFile.fs := by
    have hinode : Dinode.ofBlock (oneFile.fs.disk 3) = emptyInode := Dinode.ofBlock_toBlock _
    have hfile : emptyInode.type = typeFile := rfl
    have hnone : oneFile.fs.vnodes = [] := rfl
    rw [Event.call, wp_bind, loadvnode, wp_bind, wp_get, then_ok, hnone, findVnode, wp_bind, wp_pure,
      then_ok, wp_bind]
    refine wp_kmallocVnode rfl ?_
    rw [then_ok, wp_bind]
    refine wp_bused_of (by decide) ?_
    rw [then_ok, if_pos (by decide), wp_bind]
    refine wp_readblock_of rfl (.inr (by decide)) ?_
    rw [then_ok, hinode]
    dsimp only
    rw [if_neg fun h => h.1 rfl, if_neg fun h : typeInval ≠ typeInval => h rfl,
      if_neg fun h => h.1 hfile, wp_bind]
    refine wp_kmallocVnode rfl ?_
    rw [then_ok, wp_bind, wp_modify, then_ok, wp_pure, then_ok, wp_pure]
    exact ⟨rfl, rfl⟩
  obtain ⟨r, t, ht, rfl, rfl⟩ := hrun.exists_result
  exact ⟨trivial, _, _, ht, rfl⟩

theorem reach_closed : Reach Step anyStep oneFile closed := by
  have hload : Reach Step anyStep oneFile loaded := .tail .refl trivial step_load_oneFile
  have hgrow : Step loaded ⟨.update 1 grownInode, [], []⟩
      { loaded with fs := closed.fs } := ⟨List.mem_singleton.2 rfl, _, _, rfl, rfl⟩
  have hclose : Step { loaded with fs := closed.fs } ⟨.decref 1, [], []⟩ closed :=
    ⟨List.mem_singleton.2 rfl, _, _, rfl, rfl⟩
  exact .tail (.tail hload trivial hgrow) trivial hclose

theorem exists_step {σ : System} {a : Turn} (henabled : a.event.Enabled σ)
    (hok : (a.event.call.result { σ.fs with media := a.media, memory := a.memory }).isOk = true) :
    ∃ σ', Step σ a σ' := by
  cases hcall : a.event.call.result { σ.fs with media := a.media, memory := a.memory } with
  | error p =>
      rw [hcall] at hok
      cases hok
  | ok x => exact ⟨_, henabled, x.1, x.2, hcall, rfl⟩

/-- The inode of the file that has grown is saved when the disk does not fail. -/
theorem inodes_kept_oneFile : Fresh oneFile ∧ Reach Step anyStep oneFile closed ∧
    OneVnode closed.fs ∧ Referenced closed ∧
      ∃ σ', Step closed ⟨.reclaim 1, [], []⟩ σ' ∧ Saved closed σ' := by
  obtain ⟨hone, hreferenced, hsaved⟩ := inodes_kept fresh_oneFile reach_closed
  obtain ⟨σ', hstep⟩ := exists_step (σ := closed) (a := ⟨.reclaim 1, [], []⟩)
    (List.mem_singleton.2 rfl) (by decide +kernel)
  refine ⟨fresh_oneFile, reach_closed, hone, hreferenced, σ', hstep, hsaved _ _ hstep ?_⟩
  exact fun _ _ _ _ _ hfails => by cases hfails

/-- After `EIO` the retry writes nothing and reports success, and the vnode is freed. -/
theorem wp_reclaim_closed_lost : wp (fun _ => True) (Event.reclaim 1).call
    (fun _ t => t.vnodes = [] ∧ t.disk = closed.fs.disk)
    { closed.fs with media := [some Errno.EIO], memory := [] } := by
  have hlinked : (closed.fs.inode 1).linkcount ≠ 0 := by decide
  rw [Event.call, wp_bind, reclaim, wp_bind, wp_get, then_ok, wp_ite]
  refine ⟨fun hmany => absurd rfl hmany, fun _ => ?_⟩
  rw [if_neg hlinked, wp_bind, syncInode, wp_bind, wp_get, then_ok, if_pos (by rfl), wp_bind]
  refine wp_writeblock_head trivial (fun e he hne => ?_) (fun _ => ?_) fun hnone => ?_
  · cases he
    exact absurd rfl hne
  · rw [then_ok, wp_modify, then_ok, wp_bind, wp_get, then_ok, wp_ite]
    refine ⟨fun hzero => absurd hzero hlinked, fun _ => ?_⟩
    rw [wp_bind, wp_get, then_ok, wp_ite, wp_halt]
    refine ⟨fun _ => trivial, fun _ => ?_⟩
    rw [wp_set, then_ok, wp_pure]
    exact ⟨rfl, rfl⟩
  · cases hnone

/-- Whatever the disk does, the inode that leaves memory should be the one on the disk. Here the
disk still holds the file before it has grown. -/
theorem not_inodes_kept : ¬ ∀ σ₀ σ, Fresh σ₀ → Reach Step anyStep σ₀ σ →
    OneVnode σ.fs ∧ Referenced σ ∧ ∀ a σ', Step σ a σ' → Saved σ σ' := by
  intro hall
  have hsaved := (hall oneFile closed fresh_oneFile reach_closed).2.2
  obtain ⟨σ', hstep⟩ := exists_step (σ := closed) (a := ⟨.reclaim 1, [some Errno.EIO], []⟩)
    (List.mem_singleton.2 rfl) (by decide +kernel)
  have hstale := hsaved _ σ' hstep 1 (List.mem_singleton.2 rfl)
  obtain ⟨_, r, t, hcall, rfl⟩ := hstep
  obtain ⟨hgone, hdisk⟩ := wp_reclaim_closed_lost.returns hcall
  rw [next_fs, hgone, hdisk] at hstale
  have hold : Dinode.ofBlock (closed.fs.disk (closed.fs.ino 1)) = emptyInode :=
    Dinode.ofBlock_toBlock _
  have hsize := congrArg Dinode.size (hold.symm.trans (hstale List.not_mem_nil (by decide)))
  exact absurd hsize (by decide)

end Os161.Sfs.Vnodes
