import Os161.Sfs.Mapping

set_option autoImplicit false

/-!
# Vnodes that are loaded and reclaimed

What `sfs_loadvnode` and `sfs_reclaim` of `kern/fs/sfs/sfs_inode.c` do to `sfs_vnodes` and to the
blocks of the inodes, whatever the disk and `kmalloc` do.
-/

namespace Os161.Sfs.Vnodes

open Os161.Lib.Calls

/-! ## Loading -/

variable {s t u : Fs} {v : Ptr}

/-- Nothing has changed that `sfs_vnodes` and its vnodes consist of, and nothing on the disk. -/
structure SameVnodes (s t : Fs) : Prop where
  vnodes : t.vnodes = s.vnodes
  refcount : t.refcount = s.refcount
  ino : t.ino = s.ino
  inode : t.inode = s.inode
  dirty : t.dirty = s.dirty
  disk : t.disk = s.disk

theorem SameVnodes.refl (s : Fs) : SameVnodes s s := ⟨rfl, rfl, rfl, rfl, rfl, rfl⟩

theorem sameVnodes_rest (s : Fs) (m : List (Option Errno)) : SameVnodes s (s.rest m) :=
  ⟨rfl, rfl, rfl, rfl, rfl, rfl⟩

theorem le_foldr_max (l : List Ptr) (hv : v ∈ l) : v ≤ l.foldr max 0 := by
  induction l with
  | nil => cases hv
  | cons w l ih =>
      rw [List.foldr_cons]
      rcases List.mem_cons.1 hv with rfl | hv
      · exact Nat.le_max_left _ _
      · exact Nat.le_trans (ih hv) (Nat.le_max_right _ _)

theorem fresh_not_mem (l : List Ptr) : fresh l ∉ l := by
  intro hmem
  have hle := le_foldr_max l hmem
  exact Nat.not_succ_le_self _ hle

/-- `kmalloc` of a vnode, whether there is memory or not. -/
theorem wp_kmallocVnode_any {Q : Except Errno (Option Ptr) → Fs → Prop}
    (hnone : Q (.ok none) { s with memory := s.memory.tail })
    (hsome : ∀ p, p ∉ s.vnodes → Q (.ok (some p)) { s with memory := s.memory.tail }) :
    wp (fun _ => True) kmallocVnode Q s := by
  rw [kmallocVnode, wp_bind, wp_get, then_ok, wp_bind, wp_set, then_ok]
  split
  · exact (wp_pure _).2 hnone
  · rename_i p _
    refine (wp_pure _).2 (hsome _ ?_)
    by_cases hp : p ∈ s.vnodes
    · rw [if_pos hp]
      exact fresh_not_mem _
    · rwa [if_neg hp]
  · exact (wp_pure _).2 (hsome _ (fresh_not_mem _))

/-- The search in the table. -/
theorem wp_findVnode {ino : Daddr} {Q : Except Errno (Option Ptr) → Fs → Prop} (l : List Ptr)
    (hsome : ∀ v ∈ l, s.ino v = ino → Q (.ok (some v)) s)
    (hnone : (∀ v ∈ l, s.ino v ≠ ino) → Q (.ok none) s) :
    wp (fun _ => True) (findVnode ino l) Q s := by
  induction l with
  | nil =>
      rw [findVnode, wp_pure]
      exact hnone fun v hv => absurd hv List.not_mem_nil
  | cons v l ih =>
      rw [findVnode, wp_bind, wp_get, then_ok, wp_bind]
      refine wp_bused trivial ?_
      rw [then_ok, wp_ite, wp_ite, wp_halt]
      refine ⟨fun _ => ⟨fun hv => (wp_pure _).2 (hsome v List.mem_cons_self hv), fun hv => ?_⟩,
        fun _ => trivial⟩
      refine ih (fun w hw => hsome w (List.mem_cons_of_mem v hw)) fun hrest => hnone fun w hw => ?_
      rcases List.mem_cons.1 hw with rfl | hw
      · exact hv
      · exact hrest w hw

/-- The vnode `v` gets one more reference. -/
def increfed (s : Fs) (v : Ptr) : Fs :=
  { s with refcount := Function.update s.refcount v (s.refcount v + 1) }

/-- The vnode `v` has been loaded with the inode `d`. -/
structure Added (s : Fs) (number : Daddr) (v : Ptr) (d : Dinode) (t : Fs) : Prop where
  unused : v ∉ s.vnodes
  unloaded : ∀ w ∈ s.vnodes, s.ino w ≠ number
  vnodes : t.vnodes = s.vnodes ++ [v]
  refcount : t.refcount = Function.update s.refcount v 1
  ino : t.ino = Function.update s.ino v number
  inode : t.inode = Function.update s.inode v d
  clean : ∃ b, t.dirty = Function.update s.dirty v b ∧
    (b = false → Dinode.ofBlock (s.disk number) = d)
  disk : t.disk = s.disk

/-- What `sfs_loadvnode` does. -/
inductive Loaded (s : Fs) (ino : Daddr) : Except Errno Ptr → Fs → Prop where
  | found {v : Ptr} : v ∈ s.vnodes → s.ino v = ino → Loaded s ino (.ok v) (increfed s v)
  | added {v : Ptr} {d : Dinode} {t : Fs} : Added s ino v d t → Loaded s ino (.ok v) t
  | failed {e : Errno} {t : Fs} : SameVnodes s t → Loaded s ino (.error e) t

theorem wp_loadvnode (ino : Daddr) (forcetype : UInt16) :
    wp (fun _ => True) (loadvnode ino forcetype) (Loaded s ino) s := by
  rw [loadvnode, wp_bind, wp_get, then_ok, wp_bind]
  refine wp_findVnode s.vnodes (fun v hv hino => ?_) fun hnone => ?_
  · rw [then_ok, wp_ite, wp_halt]
    refine ⟨fun _ => ?_, fun _ => trivial⟩
    rw [wp_bind, incref, wp_modify, then_ok, wp_pure]
    exact .found hv hino
  · rw [then_ok, wp_bind]
    refine wp_kmallocVnode_any ((wp_throw _).2 (.failed ⟨rfl, rfl, rfl, rfl, rfl, rfl⟩)) fun v hv => ?_
    rw [then_ok, wp_bind]
    refine wp_bused trivial ?_
    rw [then_ok, wp_ite, wp_halt]
    refine ⟨fun _ => ?_, fun _ => trivial⟩
    rw [wp_bind]
    refine wp_readblock trivial (fun m e _ _ => .failed ⟨rfl, rfl, rfl, rfl, rfl, rfl⟩) fun m _ => ?_
    simp only [then_ok, wp_ite, wp_halt, implies_true, true_and, wp_bind]
    intro _ _
    refine wp_kmallocVnode_any ((wp_throw _).2 (.failed ⟨rfl, rfl, rfl, rfl, rfl, rfl⟩)) fun _ _ => ?_
    rw [then_ok, wp_bind, wp_modify, then_ok, wp_pure]
    refine .added (Added.mk hv hnone rfl rfl rfl rfl ?_ rfl)
    -- the type is only forced on an inode that is then dirty
    refine ⟨_, rfl, fun hclean => ?_⟩
    rw [decide_eq_false_iff_not, not_not] at hclean
    rw [if_neg (not_not.2 hclean)]

/-! ## Reclaiming -/

/-- Nothing has been done but to the inode of `v`, which is dirty if it is not what it was; its link
count is. -/
structure Touched (v : Ptr) (s t : Fs) : Prop where
  vnodes : t.vnodes = s.vnodes
  refcount : t.refcount = s.refcount
  ino : t.ino = s.ino
  inode : ∀ w, w ≠ v → t.inode w = s.inode w
  dirty : ∀ w, w ≠ v → t.dirty w = s.dirty w
  disk : t.disk = s.disk
  linkcount : (t.inode v).linkcount = (s.inode v).linkcount
  marked : t.dirty v = true ∨ t.inode v = s.inode v ∧ t.dirty v = s.dirty v

theorem SameVnodes.touched (h : SameVnodes s t) (v : Ptr) : Touched v s t where
  vnodes := h.vnodes
  refcount := h.refcount
  ino := h.ino
  inode w _ := congrFun h.inode w
  dirty w _ := congrFun h.dirty w
  disk := h.disk
  linkcount := congrArg Dinode.linkcount (congrFun h.inode v)
  marked := .inr ⟨congrFun h.inode v, congrFun h.dirty v⟩

theorem Touched.refl (v : Ptr) (s : Fs) : Touched v s s := (SameVnodes.refl s).touched v

theorem Touched.trans (h : Touched v s t) (h' : Touched v t u) : Touched v s u where
  vnodes := h'.vnodes.trans h.vnodes
  refcount := h'.refcount.trans h.refcount
  ino := h'.ino.trans h.ino
  inode w hw := (h'.inode w hw).trans (h.inode w hw)
  dirty w hw := (h'.dirty w hw).trans (h.dirty w hw)
  disk := h'.disk.trans h.disk
  linkcount := h'.linkcount.trans h.linkcount
  marked := by
    rcases h'.marked with hdirty | ⟨hinode, hdirty⟩
    · exact .inl hdirty
    · rw [hinode, hdirty]
      exact h.marked

/-- The inode is changed, but for its link count. -/
theorem touched_updateInode (s : Fs) (v : Ptr) {d : Dinode}
    (hd : d.linkcount = (s.inode v).linkcount) : Touched v s (s.updateInode v d) where
  vnodes := rfl
  refcount := rfl
  ino := rfl
  inode w hw := Function.update_of_ne hw _ _
  dirty w hw := Function.update_of_ne hw _ _
  disk := rfl
  linkcount := by simpa [Fs.updateInode, Fs.setInode, Fs.setDirty] using hd
  marked := .inl (by simp [Fs.updateInode, Fs.setDirty])

theorem dirty_updateInode (s : Fs) (v : Ptr) (d : Dinode) :
    (s.updateInode v d).dirty v = true := by
  simp [Fs.updateInode, Fs.setDirty]

theorem sameVnodes_mark (s : Fs) (b : Daddr) (x : Bool) : SameVnodes s (s.mark b x) :=
  ⟨rfl, rfl, rfl, rfl, rfl, rfl⟩

/-- The first loop of `sfs_itrunc`. -/
theorem wp_truncDirect_touched (l : UInt32) (i : Fin 15) (h : Touched v s t) :
    wp (fun _ => True) (truncDirect v l i) (fun _ u => Touched v s u) t := by
  rw [truncDirect, wp_bind, wp_get, then_ok, wp_ite]
  refine ⟨fun _ => ?_, fun _ => (wp_pure _).2 h⟩
  rw [wp_bind]
  refine wp_bfree trivial fun _ => ?_
  rw [then_ok, wp_modify]
  exact (h.trans ((sameVnodes_mark t _ false).touched v)).trans (touched_updateInode _ v rfl)

/-- The second loop when the file gets the length 0: no entry of the indirect block stays. -/
theorem wp_truncIndirect_zero (j : Fin 128) {x : Fs × Scan} (h : Touched v s x.1)
    (hnone : x.2.hasnonzero = false) :
    wp (fun _ => True) (truncIndirect 0 j)
      (fun _ y => Touched v s y.1 ∧ y.2.hasnonzero = false) x := by
  obtain ⟨t, scan⟩ := x
  simp only [truncIndirect, wp_bind, wp_get, then_ok, wp_ite, wp_framed, wp_onLocal, wp_modify]
  refine ⟨fun _ => ?_, fun hkeep => ?_⟩
  · refine wp_bfree trivial fun _ => ?_
    simp only [wp_bind, then_ok, wp_onLocal, wp_modify]
    refine ⟨h.trans ((sameVnodes_mark t _ false).touched v), ?_⟩
    rw [if_neg (not_not.2 (Function.update_self j 0 scan.idbuf))]
    exact hnone
  · have hzero : scan.idbuf j = 0 := by
      by_contra hne
      exact hkeep ⟨Nat.lt_of_lt_of_le (by decide) (Nat.le_add_right 15 j), hne⟩
    rw [if_neg (not_not.2 hzero)]
    exact ⟨h, hnone⟩

/-- `sfs_itrunc` to the length 0 writes no block: it frees the blocks of the file and the indirect
block. -/
theorem wp_itrunc_zero (v : Ptr) (s : Fs) :
    wp (fun _ => True) (itrunc v 0)
      (fun r t => Touched v s t ∧ (r = .ok () → t.dirty v = true)) s := by
  have hzero : blocklen 0 = 0 := by decide
  have hlast : ∀ {t : Fs}, Touched v s t → Touched v s (t.updateInode v
      { t.inode v with size := u32 0 }) := fun h => h.trans (touched_updateInode _ v rfl)
  rw [itrunc, hzero, wp_bind]
  refine wp_forEach (fun _ t => Touched v s t) (fun i is t h => ?_) (fun t h => ?_) (.refl v s)
  · refine wp_mono (wp_truncDirect_touched 0 i h) fun r u hu => ?_
    cases r with
    | ok _ => exact hu
    | error e => exact ⟨hu, fun hr => by cases hr⟩
  · rw [then_ok, wp_bind, wp_get, then_ok, wp_ite]
    refine ⟨fun _ => ?_, fun _ => ?_⟩
    · simp only [wp_bind]
      refine wp_readblock trivial (fun m e _ _ => ?_) fun m _ => ?_
      · exact ⟨h.trans ((sameVnodes_rest t m).touched v), fun hr => by cases hr⟩
      replace h := h.trans ((sameVnodes_rest t m).touched v)
      rw [then_ok, wp_bind, wp_withLocal]
      refine wp_forEach (fun _ x => Touched v s x.1 ∧ x.2.hasnonzero = false)
        (fun j js x hx => ?_) (fun x hx => ?_) ⟨h, rfl⟩
      · refine wp_mono (wp_truncIndirect_zero j hx.1 hx.2) fun r y hy => ?_
        cases r with
        | ok _ => exact hy
        | error e => exact ⟨hy.1, fun hr => by cases hr⟩
      · obtain ⟨u, scan⟩ := x
        obtain ⟨hu, hnone⟩ := hx
        have hmap : Except.map (fun a => (a, scan)) (.ok () : Except Errno Unit) =
            .ok ((), scan) := rfl
        rw [hmap, then_ok, wp_ite]
        refine ⟨fun _ => ?_, fun hsome => absurd hnone hsome⟩
        rw [wp_bind]
        refine wp_bfree trivial fun _ => ?_
        rw [then_ok, wp_bind, wp_modify, then_ok, wp_modify]
        exact ⟨hlast ((hu.trans ((sameVnodes_mark u _ false).touched v)).trans
          (touched_updateInode _ v rfl)), fun _ => dirty_updateInode _ _ _⟩
    · rw [wp_modify]
      exact ⟨hlast h, fun _ => dirty_updateInode _ _ _⟩

/-- `sfs_sync_inode` has not failed. -/
structure Synced (v : Ptr) (s t : Fs) : Prop where
  vnodes : t.vnodes = s.vnodes
  refcount : t.refcount = s.refcount
  ino : t.ino = s.ino
  inode : t.inode = s.inode
  dirty : ∀ w, w ≠ v → t.dirty w = s.dirty w
  disk : ∀ b, b ≠ s.ino v → t.disk b = s.disk b
  clean : s.dirty v = false → t.disk = s.disk
  written : s.dirty v = true → s.media.head?.join ≠ some Errno.EIO →
    t.disk (s.ino v) = (s.inode v).toBlock

/-- `sfs_sync_inode`: an error leaves the inode as it was, and dirty. -/
theorem wp_syncInode (v : Ptr) (s : Fs) {Q : Except Errno Unit → Fs → Prop}
    (hfail : ∀ e t, SameVnodes s t → Q (.error e) t) (hdone : ∀ t, Synced v s t → Q (.ok ()) t) :
    wp (fun _ => True) (syncInode v) Q s := by
  rw [syncInode, wp_bind, wp_get, then_ok, wp_ite]
  refine ⟨fun hdirty => ?_, fun hclean => ?_⟩
  · have hother : ∀ (t : Fs) w, w ≠ v → (t.setDirty v false).dirty w = t.dirty w := fun t w hw =>
      Function.update_of_ne hw _ _
    rw [wp_bind]
    refine wp_writeblock_head trivial (fun e _ _ => ?_) (fun hlost => ?_) fun _ => ?_
    · exact hfail e _ (sameVnodes_rest s _)
    · -- the retry has reported success, but the block on the disk is the old one
      rw [then_ok, wp_modify]
      refine hdone _ ⟨rfl, rfl, rfl, rfl, hother _, fun _ _ => rfl, fun h => ?_, fun _ h => ?_⟩
      · rw [hdirty] at h
        cases h
      · exact absurd hlost h
    · rw [then_ok, wp_modify]
      refine hdone _ ⟨rfl, rfl, rfl, rfl, hother _, fun b hb => ?_, fun h => ?_, fun _ _ => ?_⟩
      · exact Function.update_of_ne hb _ _
      · rw [hdirty] at h
        cases h
      · exact Function.update_self (s.ino v) _ s.disk
  · rw [wp_pure]
    exact hdone s ⟨rfl, rfl, rfl, rfl, fun _ _ => rfl, fun _ _ => rfl, fun _ => rfl,
      fun h => absurd h hclean⟩

/-- `sfs_reclaim` has freed the vnode `v`. -/
structure Freed (v : Ptr) (s t : Fs) : Prop where
  alone : s.refcount v = 1
  vnodes : t.vnodes = s.vnodes.erase v
  refcount : t.refcount = Function.update s.refcount v 0
  ino : t.ino = s.ino
  inode : ∀ w, w ≠ v → t.inode w = s.inode w
  dirty : ∀ w, w ≠ v → t.dirty w = s.dirty w
  disk : ∀ b, b ≠ s.ino v → t.disk b = s.disk b
  clean : (s.inode v).linkcount ≠ 0 → s.dirty v = false → t.disk = s.disk
  written : (s.inode v).linkcount ≠ 0 → s.dirty v = true → s.media.head?.join ≠ some Errno.EIO →
    t.disk (s.ino v) = (s.inode v).toBlock

/-- What `sfs_reclaim` does. -/
inductive Reclaimed (v : Ptr) (s : Fs) : Except Errno Unit → Fs → Prop where
  | busy : 1 < s.refcount v → Reclaimed v s (.error .EBUSY)
      { s with refcount := Function.update s.refcount v (s.refcount v - 1) }
  | kept {e : Errno} {t : Fs} : Touched v s t → Reclaimed v s (.error e) t
  | freed {t : Fs} : Freed v s t → Reclaimed v s (.ok ()) t

/-- The end of `sfs_reclaim`, once the blocks of a file without links are gone. -/
theorem wp_reclaim_end (halone : s.refcount v = 1) (h : Touched v s t)
    (hlinked : (s.inode v).linkcount ≠ 0 → t = s) : wp (fun _ => True) (do
      syncInode v
      let s ← get
      if (s.inode v).linkcount = 0 then bfree (s.ino v) else pure ()
      let s ← get
      if v ∉ s.vnodes then halt .notInPool
      else
        set { s with
          vnodes := s.vnodes.erase v
          refcount := Function.update s.refcount v 0 } : FsCall Unit) (Reclaimed v s) t := by
  -- taking the vnode out of the table
  have hlast : ∀ u x, Synced v t u → SameVnodes u x → wp (fun _ => True) (do
      let s ← get
      if v ∉ s.vnodes then halt .notInPool
      else
        set { s with
          vnodes := s.vnodes.erase v
          refcount := Function.update s.refcount v 0 } : FsCall Unit) (Reclaimed v s) x := by
    intro u x hu hx
    rw [wp_bind, wp_get, then_ok, wp_ite, wp_halt]
    refine ⟨fun _ => trivial, fun _ => ?_⟩
    rw [wp_set]
    refine .freed
      { alone := halone
        vnodes := ?_
        refcount := ?_
        ino := hx.ino.trans (hu.ino.trans h.ino)
        inode := fun w hw => ?_
        dirty := fun w hw => ?_
        disk := fun b hb => ?_
        clean := fun hne hclean => ?_
        written := fun hne hdirty hmedia => ?_ }
    · rw [hx.vnodes, hu.vnodes, h.vnodes]
    · rw [hx.refcount, hu.refcount, h.refcount]
    · exact (congrFun (hx.inode.trans hu.inode) w).trans (h.inode w hw)
    · exact (congrFun hx.dirty w).trans ((hu.dirty w hw).trans (h.dirty w hw))
    · rw [← h.ino] at hb
      exact (congrFun hx.disk b).trans ((hu.disk b hb).trans (congrFun h.disk b))
    · cases hlinked hne
      exact hx.disk.trans (hu.clean hclean)
    · cases hlinked hne
      exact (congrFun hx.disk _).trans (hu.written hdirty hmedia)
  rw [wp_bind]
  refine wp_syncInode v t (fun e u hu => ?_) fun u hu => ?_
  · exact .kept (h.trans (hu.touched v))
  · rw [then_ok, wp_bind, wp_get, then_ok, wp_ite]
    refine ⟨fun _ => ?_, fun _ => hlast u u hu (.refl u)⟩
    rw [wp_bind]
    refine wp_bfree trivial fun _ => ?_
    exact hlast u _ hu (sameVnodes_mark u _ false)

theorem wp_reclaim (v : Ptr) (s : Fs) : wp (fun _ => True) (reclaim v) (Reclaimed v s) s := by
  rw [reclaim, wp_bind, wp_get, then_ok, wp_ite]
  refine ⟨fun hmany => ?_, fun hone => ?_⟩
  · rw [wp_ite, wp_halt]
    refine ⟨fun _ => trivial, fun hpos => ?_⟩
    rw [wp_bind, wp_set, then_ok, wp_throw]
    exact .busy (by omega)
  · have halone := not_not.1 hone
    rw [wp_ite]
    refine ⟨fun hzero => ?_, fun _ => ?_⟩
    · rw [wp_bind]
      refine wp_mono (wp_itrunc_zero v s) fun r t ht => ?_
      cases r with
      | error e => exact .kept ht.1
      | ok _ => exact wp_reclaim_end halone ht.1 fun hne => absurd hzero hne
    · exact wp_reclaim_end halone (.refl v s) fun _ => rfl

end Os161.Sfs.Vnodes
