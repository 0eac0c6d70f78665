import Os161.Buffer.SharedBuffer

set_option autoImplicit false

/-!
# The bounded buffer loses no wakeup

A waiting get takes one element and a waiting put takes one free cell. As long as somebody waits on
`cons_cv`, the gets that have been woken are at least as many as the elements in the buffer, and in
the same way for `prod_cv` and the free cells: a newcomer that takes what a woken thread was woken
for leaves less to take, and the woken thread goes back to sleep.
-/

namespace Os161.Buffer

open Os161.Lib.Runs
open Os161.Lib.Monitor
open Os161.Synch

variable {α τ : Type} {v : Version} {size : Int} {x : SharedBuffer α}

/-- What the threads that wait on a condition variable wait for: elements, or free cells. -/
def SharedBuffer.room (x : SharedBuffer α) : Cv → Int
  | .prod => x.buffSize - x.counter
  | .cons => x.counter

/-- What a thread with the lock does not leave to the woken threads: what it is going to take, and
after `sb->counter++` or `sb->counter--` what it has added and not yet signalled. -/
def Point.takes : Point α → Cv → Int
  | .out, _ => 0
  | .put _ .enter, _ => 0
  | .put _ .yield6, .cons | .put _ .signal, .cons => 1
  | .put _ .yield6, .prod | .put _ .signal, .prod | .put _ .release, _ => 0
  | .put _ _, .prod => 1
  | .put _ _, .cons => 0
  | .get .enter, _ => 0
  | .get (.signal _), .prod => 1
  | .get (.signal _), .cons | .get (.release _), _ => 0
  | .get _, .cons => 1
  | .get _, .prod => 0

/-- What there is to take when the lock is free. -/
def supply (c : Cv) (x : SharedBuffer α) : Nat := (x.room c).toNat

/-- What a thread with the lock leaves to the woken threads. -/
def need (c : Cv) (k : Point α) (x : SharedBuffer α) : Nat := (x.room c - k.takes c).toNat

theorem room_note (x : SharedBuffer α) (k : Point α) (c : Cv) : (note x k).room c = x.room c := by
  unfold note
  split <;> rfl

/-- What is noted at the end of a critical section is not counted. -/
@[simp] theorem room_effect (t : τ) (k : Point α) (r : Req Unit Cv) (c : Cv) :
    ((bufferUsers v τ α).effect t k r x).room c = x.room c :=
  room_note x k c

/-- A statement between the calls leaves to the woken threads what was left before. -/
theorem need_of_runs {k k' : Point α} {x' : SharedBuffer α} (h : Runs v k x k' x') (c : Cv) :
    need c k' x' = need c k x := by
  unfold need
  cases h with
  | callPut e => cases c <;> rfl
  | callGet => cases c <;> rfl
  | full e => cases c <;> rfl
  | notFull e => cases c <;> cases v <;> rfl
  | yield5 e => cases c <;> rfl
  | store e => cases c <;> cases v <;> rfl
  | printPut e => cases c <;> rfl
  | advanceIn e => cases c <;> rfl
  | yield6 e => cases c <;> rfl
  | empty => cases c <;> rfl
  | notEmpty => cases c <;> rfl
  | load => cases c <;> cases v <;> rfl
  | yield7 ret => cases c <;> rfl
  | printGet ret => cases c <;> rfl
  | advanceOut ret => cases c <;> rfl
  | incr e =>
      -- the new element is owed to the gets until the signal, and the cell is not free any more
      congr 1
      cases c <;> cases v <;>
        simp only [SharedBuffer.room, SharedBuffer.incr, Put.afterCount, Point.takes] <;> omega
  | decr ret =>
      congr 1
      cases c <;> simp only [SharedBuffer.room, SharedBuffer.decr, Point.takes] <;> omega

/-- A thread waits only when there is nothing to take. -/
theorem room_of_wait {k k' : Point α} {c : Cv} (hc : Calls k (.wait c ()) k')
    (hD : Changed size k x) : x.room c = 0 := by
  obtain ⟨y, hy, hch⟩ := hD
  cases hc with
  | putWait e =>
      obtain ⟨hfull, rfl⟩ := hch
      change x.buffSize - x.counter = 0
      rw [hy.buffSize, hfull, sub_self]
  | getWait =>
      obtain ⟨hempty, rfl⟩ := hch
      exact hempty

/-- Every woken thread takes one, and every put or get adds one for the other side and signals. -/
theorem accounts (v : Version) (τ : Type) (size : Int) (c : Cv) :
    Accounts (bufferUsers v τ α) anyStep (Ring size) (Changed size) c (fun _ => 1) (supply c)
      (need c) where
  inside s t k k' x _ _ _ _ hr hcov := by
    rw [need_of_runs hr c]
    exact hcov
  acquire t k k' x hc _ := by
    cases hc <;> cases c <;> simp [need, supply, Point.takes]
  release t k k' x hc _ := by
    cases hc <;> cases c <;> simp [need, supply, Point.takes]
  waitHere t k k' x hc hD := by
    refine ⟨?_, le_rfl⟩
    unfold supply
    rw [room_effect, room_of_wait hc hD]
    rfl
  waitElse t c' k k' x hc _ hne := by
    cases hc <;> cases c <;> first | exact absurd rfl hne | simp [need, supply, Point.takes]
  resumeHere k k' x hc _ := by
    cases hc <;> simp [need, supply, Point.takes]
  resumeElse c' k k' x hc _ hne := by
    cases hc <;> cases c <;> first | exact absurd rfl hne | simp [need, supply, Point.takes]
  signalHere t k k' x hc _ := by
    cases hc <;> simp only [need, room_effect, Point.takes] <;> omega
  signalElse t c' k k' x hc _ hne := by
    cases hc <;> cases c <;> first | exact absurd rfl hne | simp [need, Point.takes]
  broadcastElse t c' k k' x hc := by cases hc

/-! ## Runs -/

variable [DecidableEq τ] {s : Machine τ Unit Cv (SharedBuffer α) (Point α)}

/-- While somebody is in `cv_wait` without the lock and not woken, the woken threads are enough for
what there is. -/
theorem room_le_woken {garbage : Int → α} (hsize : 0 < size)
    (h : Reach (Step (synch v (bufferUsers v τ α))) anyStep (start v τ size garbage) s)
    (hfree : (s.shared.locks ()).held = false) {c : Cv} {w : τ} (hw : Released s c w) :
    ((s.shared.data.room c).toNat : ENat) ≤ {u | Returns s c u}.encard := by
  have hsound := sound_of_reach h
  obtain ⟨hlinked, habs⟩ := reach_monitor h
  have hbal := (accounts v τ size c).balanced (guarded v τ size) (ring_create hsize garbage) habs
  have hmem := (released_iff hsound).2 hw
  have hle := (hbal.free (hlinked.holder_of_free hfree)).le_encard (List.ne_nil_of_mem hmem)
  simp only [woken_iff hsound] at hle
  exact hle

/-- No wakeup is lost. While the lock is free and a get has given up the lock to wait, as many gets
as there are elements have been woken and have not tested the counter again, and so for the puts
and the free cells. When all threads sleep that are in a call, the gets sleep at an empty buffer
and the puts at a full one. -/
theorem sharedBuffer_wakes (v : Version) (size : Int) (hsize : 0 < size) (garbage : Int → α)
    (h : Reach (Step (synch v (bufferUsers v τ α))) anyStep (start v τ size garbage) s) :
    ((s.shared.locks ()).held = false → ∀ w, Released s .cons w →
      (s.shared.data.counter.toNat : ENat) ≤ {u | Returns s .cons u}.encard) ∧
    ((s.shared.locks ()).held = false → ∀ w, Released s .prod w →
      ((s.shared.data.buffSize - s.shared.data.counter).toNat : ENat) ≤
        {u | Returns s .prod u}.encard) ∧
    ((∀ t, Asleep s t ∨ s.pcs t = .active (.client .out)) → ∀ t, Asleep s t →
      (t ∈ s.queue (.cvWchan .cons) ∧ s.shared.data.counter = 0) ∨
        (t ∈ s.queue (.cvWchan .prod) ∧ s.shared.data.counter = s.shared.data.buffSize)) := by
  refine ⟨fun hfree w => room_le_woken hsize h hfree, fun hfree w => room_le_woken hsize h hfree,
    fun hall t ht => ?_⟩
  obtain ⟨hfree, hnone, hcv⟩ := quiet_of_asleep h fun t => (hall t).imp_right fun hout =>
    ⟨.out, hout, rfl⟩
  obtain ⟨c, hc⟩ := hcv t ht
  have hle := room_le_woken hsize h hfree (.inr hc)
  have hempty : {u | Returns s c u} = ∅ := Set.eq_empty_iff_forall_notMem.2 (hnone c)
  rw [hempty, Set.encard_empty, nonpos_iff_eq_zero, Nat.cast_eq_zero, Int.toNat_eq_zero] at hle
  have hord := orderly_of_reach hsize h
  cases c with
  | cons => exact .inl ⟨hc, le_antisymm hle hord.counter_nonneg⟩
  | prod =>
      have hle : s.shared.data.buffSize - s.shared.data.counter ≤ 0 := hle
      have hcounter := hord.counter_le
      rw [← hord.buffSize] at hcounter
      exact .inr ⟨hc, by omega⟩

/-- Threads `1` and `2` wait in a get, and `3` has put: there is one element, and `1` has been
woken for it. -/
theorem sharedBuffer_wakes_two_gets :
    ∃ s : Machine Nat Unit Cv (SharedBuffer Nat) (Point Nat), s.shared.data.counter = 1 ∧
      s.queue (.cvWchan .cons) = [2] ∧ (1 : ENat) ≤ {u | Returns s .cons u}.encard := by
  have begin : Reach (Step (synch .dvz (bufferUsers .dvz Nat Nat))) anyStep
      (start .dvz Nat 1 fun _ => 0) _ := .refl
  have locked₁ := reach_lockAcquire (t := 1) allowsCalls_anyStep
    (begin.tail (a := 1) trivial (.run rfl (.client (.callGet _)))) trivial rfl .getAcquire rfl rfl
  have asleep₁ := reach_cvWait (t := 1) allowsCalls_anyStep
    (locked₁.tail (a := 1) trivial (.run rfl (.client (.empty _ rfl)))) trivial rfl .getWait rfl rfl
    rfl rfl
  have locked₂ := reach_lockAcquire (t := 2) allowsCalls_anyStep
    (asleep₁.tail (a := 2) trivial (.run rfl (.client (.callGet _)))) trivial rfl .getAcquire rfl rfl
  have asleep₂ := reach_cvWait (t := 2) allowsCalls_anyStep
    (locked₂.tail (a := 2) trivial (.run rfl (.client (.empty _ rfl)))) trivial rfl .getWait rfl rfl
    rfl rfl
  have locked₃ := reach_lockAcquire (t := 3) allowsCalls_anyStep
    (asleep₂.tail (a := 3) trivial (.run rfl (.client (.callPut 7 _)))) trivial rfl (.putAcquire 7)
    rfl rfl
  have stored := locked₃.tail (a := 3) trivial (.run rfl (.client (.notFull 7 _ (by decide))))
    |>.tail (a := 3) trivial (.run rfl (.client (.yield5 7 _)))
    |>.tail (a := 3) trivial (.run rfl (.client (.store 7 _)))
    |>.tail (a := 3) trivial (.run rfl (.client (.advanceIn 7 _)))
    |>.tail (a := 3) trivial (.run rfl (.client (.incr 7 _)))
    |>.tail (a := 3) trivial (.run rfl (.client (.yield6 7 _)))
  have signalled := reach_cvWake false (t := 3) allowsCalls_anyStep stored trivial rfl (.putSignal 7)
    rfl rfl rfl
  have released := reach_lockRelease (t := 3) allowsCalls_anyStep signalled trivial rfl
    (.putRelease 7) rfl rfl rfl
  exact ⟨_, rfl, rfl,
    (sharedBuffer_wakes .dvz 1 (by decide) _ released).1 rfl 2 (.inr (List.mem_singleton.2 rfl))⟩

end Os161.Buffer
