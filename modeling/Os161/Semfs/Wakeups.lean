import Os161.Semfs.Vnops
import Os161.Synch.Uncontended

set_option autoImplicit false

/-!
# Wakeups of the user-level semaphores

`semfs_wakeup` wakes nobody when the old count is not zero, as if there were no sleepers then. There
are some while woken readers have not run yet. As long as what is posted in the meantime is not
more than those readers take, no wakeup is lost (`semfs_wakes`); two posts of one unit for two
readers already lose one (`semfs_loses`).
-/

namespace Os161.Semfs

open Os161.Lib.Runs
open Os161.Lib.Monitor
open Os161.Synch

variable {τ : Type} {x : SemfsSem}

/-- What a reader has not read yet. -/
def Point.resid : Point → Nat
  | .read resid _ => resid.toNat
  | _ => 0

/-- What there is to take when the lock is free. -/
def supply (x : SemfsSem) : Nat := x.count.toNat

/-- What a thread with the lock leaves to the woken readers. -/
def need (k : Point) (x : SemfsSem) : Nat :=
  match k with
  | .read _ .release => x.count.toNat
  | .read resid _ => x.count.toNat - resid.toNat
  | .store _ newcount => newcount.toNat
  | _ => x.count.toNat

/-- What a thread with the lock knows. -/
def Knows (k : Point) (x : SemfsSem) : Prop :=
  match k with
  | .read resid .block => resid ≠ 0
  | .read resid .wait => resid ≠ 0 ∧ x.count = 0
  | .wakeup _ newcount .signal => newcount = 1
  | _ => True

/-- The post of `t` wakes nobody only when the woken readers take it all. -/
def Takes (s : State τ Unit Unit SemfsSem Point) (t : τ) : Prop :=
  ∀ f newcount, s.pcs t = .active (.wakeup f newcount .test) → s.shared.count ≠ 0 → newcount ≠ 0 →
    Covered Point.resid () s newcount.toNat

theorem guarded (τ : Type) : Guarded (semfsUsers τ) (fun _ => True) Knows where
  inside t k k' x x' _ hD hr := by
    cases hr with
    | stay x h => exact h
    | block x h => exact ⟨hD, h⟩
    | one f x h h' => exact h'
    | store f newcount x => cases f <;> trivial
    | _ => trivial
  outside t k k' x x' ho hr := by cases hr <;> first | rfl | cases ho
  acquire t k k' x hc _ := by cases hc <;> trivial
  release _ _ _ _ _ _ := trivial
  wait _ _ _ _ _ _ _ := trivial
  resume c k k' x hc _ := by
    cases hc
    trivial
  signal t c k k' x hc _ := by
    cases hc
    trivial
  broadcast t c k k' x hc _ := by
    cases hc
    trivial

/-- What a reader consumes is not left to others. -/
theorem need_consume (resid count : Word) :
    (count - consume resid count).toNat - (resid - consume resid count).toNat =
      count.toNat - resid.toNat := by
  unfold consume
  split
  next h =>
    have hlt := BitVec.lt_def.1 h
    rw [BitVec.sub_self, BitVec.toNat_zero]
    omega
  next h =>
    have hle := BitVec.le_def.1 (BitVec.not_lt.1 h)
    rw [BitVec.sub_self, BitVec.toNat_zero, BitVec.toNat_sub_of_le (BitVec.not_lt.1 h)]
    rfl

/-- A statement leaves to the woken readers what was left before, unless it is the end of a
`semfs_wakeup` that wakes nobody. -/
theorem need_of_runs {k k' : Point} {x' : SemfsSem} (h : Runs k x k' x')
    (hskip : ∀ f newcount, k = .wakeup f newcount .test → k' ≠ .store f newcount) :
    need k' x' ≤ need k x := by
  cases h with
  | consume x h => exact (need_consume _ _).le
  | readDone x h => simp [need, h]
  | breakLoop x h => simp [need, h]
  | skip f x h => exact absurd rfl (hskip f _ rfl)
  | store f newcount x => cases f <;> exact le_rfl
  | callRead resid x => exact Nat.sub_le _ _
  | _ => exact le_rfl

theorem accounts (τ : Type) :
    Accounts (semfsUsers τ) Takes (fun _ => True) Knows () Point.resid supply need where
  inside s t k k' x hok hk _ hD hr hcov := by
    by_cases hskip : ∃ f newcount, k = .wakeup f newcount .test ∧ k' = .store f newcount
    · obtain ⟨f, newcount, rfl, rfl⟩ := hskip
      cases hr with
      | skip f x h =>
          by_cases hzero : newcount = 0
          · rw [hzero]
            exact Covered.zero
          · exact hok f newcount hk (h.resolve_right hzero) hzero
    · refine fun hne => ?_
      obtain ⟨W, hW, hsum⟩ := hcov hne
      exact ⟨W, hW, (need_of_runs hr fun f newcount e e' => hskip ⟨f, newcount, e, e'⟩).trans hsum⟩
  acquire t k k' x hc _ := by
    cases hc with
    | readAcquire resid => exact Nat.sub_le _ _
    | writeAcquire resid => exact le_rfl
    | truncateAcquire len => exact le_rfl
  release t k k' x hc _ := by cases hc <;> exact le_rfl
  waitHere t k k' x hc hD := by
    cases hc with
    | readWait resid =>
        obtain ⟨hne, hcount⟩ := hD
        refine ⟨?_, Nat.one_le_iff_ne_zero.2 fun h => hne (BitVec.eq_of_toNat_eq h)⟩
        change x.count.toNat = 0
        rw [hcount]
        rfl
  waitElse t c k k' x _ _ hne := absurd rfl hne
  resumeHere k k' x hc _ := by
    cases hc with
    | readWait resid => exact le_rfl
  resumeElse c k k' x _ _ hne := absurd rfl hne
  signalHere t k k' x hc hD := by
    cases hc with
    | signal f newcount =>
        obtain rfl : newcount = 1 := hD
        exact Nat.le_add_left 1 _
  signalElse t c k k' x _ _ hne := absurd rfl hne
  broadcastElse t c k k' x _ _ hne := absurd rfl hne

/-! ## Runs -/

variable [DecidableEq τ] {v : Version} {s : Machine τ Unit Unit SemfsSem Point} {t : τ}

/-- The semaphore has been created, and nobody is in a call. -/
abbrev start (v : Version) (τ : Type) [DecidableEq τ] : Machine τ Unit Unit SemfsSem Point :=
  boot v (semfsUsers τ) semfsSemCreate

/-- What a reader in `cv_wait` has not read yet. -/
def wants (s : Machine τ Unit Unit SemfsSem Point) (u : τ) : Nat :=
  (pointOf (s.pcs u)).phase.demand Point.resid

/-- Unless `semfs_wakeup`, called by `t`, finds a positive count while some reader has given up the
lock to wait and not been woken: then the readers that have been woken, and not got the lock back
yet, want at least the new count together. -/
def Absorbed (s : Machine τ Unit Unit SemfsSem Point) (t : τ) : Prop :=
  ∀ f newcount, s.pcs t = .active (.client (.wakeup f newcount .test)) →
    s.shared.data.count ≠ 0 → newcount ≠ 0 → (∃ w, Released s () w) →
      ∃ W : Finset τ, (∀ u ∈ W, Returns s () u) ∧ newcount.toNat ≤ ∑ u ∈ W, wants s u

theorem takes_of_absorbed (h : Sound (synch v (semfsUsers τ)) s) (hl : Linked (semfsUsers τ) s)
    (ha : Absorbed s t) : Takes (abs s) t := by
  intro f newcount hk hcount hnew hne
  have ht := client_of_abs h hl hk (fun r k' hc => nomatch hc) (fun k' r hc => nomatch hc)
  obtain ⟨w, hw⟩ := List.exists_mem_of_ne_nil _ hne
  obtain ⟨W, hW, hsum⟩ := ha f newcount ht hcount hnew ⟨w, (released_iff h).1 hw⟩
  exact ⟨W, fun u hu => (woken_iff h).2 (hW u hu), hsum⟩

omit [DecidableEq τ] in
theorem absorbed_of_ne (h : ∀ f newcount, s.pcs t ≠ .active (.client (.wakeup f newcount .test))) :
    Absorbed s t :=
  fun f newcount ht _ _ _ => absurd ht (h f newcount)

omit [DecidableEq τ] in
theorem allowsCalls_absorbed : AllowsCalls (Absorbed : Machine τ Unit Unit SemfsSem Point → τ → Prop) := by
  intro s t p ht hp
  refine absorbed_of_ne fun f newcount h => ?_
  rw [ht] at h
  cases h
  exact hp _ rfl

/-- No wakeup is lost in a run in which every post that wakes nobody is absorbed: whenever the lock
is free, the count is positive and a reader sleeps, another one has been woken and is on its way. -/
theorem semfs_wakes (v : Version)
    (h : Reach (Step (synch v (semfsUsers τ))) Absorbed (start v τ) s) :
    ¬ ((s.shared.locks ()).held = false ∧ s.shared.data.count ≠ 0 ∧
      (∃ t, t ∈ s.queue (.cvWchan ())) ∧ ∀ u, ¬ Returns s () u) := by
  rintro ⟨hfree, hcount, ⟨t, ht⟩, hnone⟩
  have hsound := sound_of_reach h
  obtain ⟨hlinked, habs⟩ := reach_abs Takes (fun _ _ hs hl ha => takes_of_absorbed hs hl ha) h
  have hbal := (accounts τ).balanced (guarded τ) trivial habs
  have hpos : 0 < supply (abs s).shared := Nat.pos_of_ne_zero fun hzero =>
    hcount (BitVec.eq_of_toNat_eq hzero)
  have hmem := (released_iff hsound).2 (.inr ht)
  obtain ⟨u, hu⟩ := (hbal.free (hlinked.holder_of_free hfree)).exists_woken hpos
    (List.ne_nil_of_mem hmem)
  exact hnone u ((woken_iff hsound).1 hu)

omit [DecidableEq τ] in
theorem not_returns_of_client {k : Point} (h : s.pcs t = .active (.client k)) : ¬ Returns s () t := by
  rintro ⟨-, hreturns⟩
  rw [h] at hreturns
  cases hreturns

/-- Reader `1` waits for one unit, and writer `2` posts it. -/
theorem semfs_wakes_post : ∃ s : Machine Nat Unit Unit SemfsSem Point,
    s.shared.data.count = 1 ∧ ¬ ((s.shared.locks ()).held = false ∧ s.shared.data.count ≠ 0 ∧
      (∃ t, t ∈ s.queue (.cvWchan ())) ∧ ∀ u, ¬ Returns s () u) := by
  have begin : Reach (Step (synch .dvz (semfsUsers Nat))) Absorbed (start .dvz Nat) _ := .refl
  have called := begin.tail (a := 1) (absorbed_of_ne nofun) (.run rfl (.client (.callRead 1 _)))
  have locked := reach_lockAcquire (t := 1) allowsCalls_absorbed called (absorbed_of_ne nofun) rfl
    (.readAcquire _) rfl rfl
  have empty := locked.tail (a := 1) (absorbed_of_ne nofun)
      (.run rfl (.client (.readMore _ (by decide))))
    |>.tail (a := 1) (absorbed_of_ne nofun) (.run rfl (.client (.nothing _ rfl)))
    |>.tail (a := 1) (absorbed_of_ne nofun) (.run rfl (.client (.stay _ (by decide))))
    |>.tail (a := 1) (absorbed_of_ne nofun) (.run rfl (.client (.block _ rfl)))
  have asleep := reach_cvWait (t := 1) allowsCalls_absorbed empty (absorbed_of_ne nofun) rfl (.readWait _) rfl
    rfl rfl rfl
  have called₂ := asleep.tail (a := 2) (absorbed_of_ne nofun) (.run rfl (.client (.callWrite 1 _)))
  have locked₂ := reach_lockAcquire (t := 2) allowsCalls_absorbed called₂ (absorbed_of_ne nofun) rfl
    (.writeAcquire _) rfl rfl
  have posting := locked₂.tail (a := 2) (absorbed_of_ne nofun)
      (.run rfl (.client (.post _ (by decide) (by decide))))
    |>.tail (a := 2) (fun _ _ _ hcount => absurd rfl hcount) (.run rfl (.client (.one _ _ rfl rfl)))
  have signalled := reach_cvWake false (t := 2) allowsCalls_absorbed posting (absorbed_of_ne nofun)
    rfl (.signal _ _) rfl rfl rfl
  have stored := signalled.tail (a := 2) (absorbed_of_ne nofun)
    (.run rfl (.client (.store _ _ _)))
  exact ⟨_, rfl, semfs_wakes .dvz stored⟩

/-- Readers `1` and `2` wait for one unit each. Writer `3` posts one unit, which wakes `1`, and
another one, which wakes nobody. When `1` has read, one unit is left, and `2` sleeps. -/
theorem semfs_loses : ∃ s : Machine Nat Unit Unit SemfsSem Point,
    Reach (Step (synch .dvz (semfsUsers Nat))) anyStep (start .dvz Nat) s ∧
      (s.shared.locks ()).held = false ∧ s.shared.data.count = 1 ∧ 2 ∈ s.queue (.cvWchan ()) ∧
      ∀ u, ¬ Returns s () u := by
  have begin : Reach (Step (synch .dvz (semfsUsers Nat))) anyStep (start .dvz Nat) _ := .refl
  have locked := reach_lockAcquire (t := 1) allowsCalls_anyStep
    (begin.tail (a := 1) trivial (.run rfl (.client (.callRead 1 _)))) trivial rfl
    (.readAcquire _) rfl rfl
  have empty := locked.tail (a := 1) trivial (.run rfl (.client (.readMore _ (by decide))))
    |>.tail (a := 1) trivial (.run rfl (.client (.nothing _ rfl)))
    |>.tail (a := 1) trivial (.run rfl (.client (.stay _ (by decide))))
    |>.tail (a := 1) trivial (.run rfl (.client (.block _ rfl)))
  have asleep := reach_cvWait (t := 1) allowsCalls_anyStep empty trivial rfl (.readWait _) rfl rfl rfl
    rfl
  have locked₂ := reach_lockAcquire (t := 2) allowsCalls_anyStep
    (asleep.tail (a := 2) trivial (.run rfl (.client (.callRead 1 _)))) trivial rfl
    (.readAcquire _) rfl rfl
  have empty₂ := locked₂.tail (a := 2) trivial (.run rfl (.client (.readMore _ (by decide))))
    |>.tail (a := 2) trivial (.run rfl (.client (.nothing _ rfl)))
    |>.tail (a := 2) trivial (.run rfl (.client (.stay _ (by decide))))
    |>.tail (a := 2) trivial (.run rfl (.client (.block _ rfl)))
  have asleep₂ := reach_cvWait (t := 2) allowsCalls_anyStep empty₂ trivial rfl (.readWait _) rfl rfl
    rfl rfl
  -- the first post
  have locked₃ := reach_lockAcquire (t := 3) allowsCalls_anyStep
    (asleep₂.tail (a := 3) trivial (.run rfl (.client (.callWrite 1 _)))) trivial rfl
    (.writeAcquire _) rfl rfl
  have posting := locked₃.tail (a := 3) trivial
      (.run rfl (.client (.post _ (by decide) (by decide))))
    |>.tail (a := 3) trivial (.run rfl (.client (.one _ _ rfl rfl)))
  have signalled := reach_cvWake false (t := 3) allowsCalls_anyStep posting trivial rfl (.signal _ _)
    rfl rfl rfl
  have stored := signalled.tail (a := 3) trivial (.run rfl (.client (.store _ _ _)))
    |>.tail (a := 3) trivial (.run rfl (.client (.writeDone _ rfl)))
  have posted := reach_lockRelease (t := 3) allowsCalls_anyStep stored trivial rfl (.writeRelease _)
    rfl rfl rfl
  -- the second post
  have locked₄ := reach_lockAcquire (t := 3) allowsCalls_anyStep
    (posted.tail (a := 3) trivial (.run rfl (.client (.callWrite 1 _)))) trivial rfl
    (.writeAcquire _) rfl rfl
  have stored₂ := locked₄.tail (a := 3) trivial
      (.run rfl (.client (.post _ (by decide) (by decide))))
    |>.tail (a := 3) trivial (.run rfl (.client (.skip _ _ (.inl (by decide)))))
    |>.tail (a := 3) trivial (.run rfl (.client (.store _ _ _)))
    |>.tail (a := 3) trivial (.run rfl (.client (.writeDone _ rfl)))
  have posted₂ := reach_lockRelease (t := 3) allowsCalls_anyStep stored₂ trivial rfl
    (.writeRelease _) rfl rfl rfl
  -- the first reader returns
  have back := reach_cvReturn (t := 1) allowsCalls_anyStep posted₂ trivial rfl (by decide) rfl rfl rfl
  have consumed := back.tail (a := 1) trivial (.run rfl (.client (.readMore _ (by decide))))
    |>.tail (a := 1) trivial (.run rfl (.client (.consume _ (by decide))))
    |>.tail (a := 1) trivial (.run rfl (.client (.breakLoop _ rfl)))
  have done := reach_lockRelease (t := 1) allowsCalls_anyStep consumed trivial rfl (.readRelease _) rfl
    rfl rfl
  refine ⟨_, done, rfl, rfl, List.mem_singleton.2 rfl, fun u => ?_⟩
  match u with
  | 0 => exact not_returns_of_client (k := .out) rfl
  | 1 => exact not_returns_of_client (k := .out) rfl
  | 2 => exact fun h => h.1 (List.mem_singleton.2 rfl)
  | 3 => exact not_returns_of_client (k := .out) rfl
  | n + 4 => exact not_returns_of_client (k := .out) rfl

end Os161.Semfs
