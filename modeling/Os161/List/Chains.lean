import Os161.List.Histories
import Os161.Synch.Uncontended

set_option autoImplicit false

/-!
# Well-formed histories

The list of os161-vud-proj1-proj2 is well-formed whenever its lock is free, and holds what has been
added and not been taken. The list of os161-dvz-main is well-formed until a node is put between two
others.
-/

namespace Os161.LinkedList

open Os161.Lib.Command
open Os161.Lib.Runs
open Os161.Lib.Monitor
open Os161.Synch

variable {δ : Type}

/-! ## os161-dvz-main -/

instance (c : Call δ) (is : List (Item δ)) : Decidable (c.Between is) :=
  match c, is with
  | .insert key _, i :: is =>
      inferInstanceAs (Decidable (key.sle i.1 = false ∧ ∃ j ∈ is, j.1.sle key = false))
  | .insert _ _, [] => inferInstanceAs (Decidable False)
  | .prepend _, _ => inferInstanceAs (Decidable False)
  | .removeHead, _ => inferInstanceAs (Decidable False)

/-- A well-formed list stays so unless a node is put between two others. -/
theorem Completes.wellFormed_iff {x x' : Shared δ} {c : Call δ} {cells : List (Cell δ)}
    (hc : Completes .dvz x c x') (h : Rep true x.list cells) :
    (∃ as, WellFormed x'.list as) ↔ ¬ c.Between (items cells) := by
  constructor
  · rintro ⟨as, has⟩ hbetween
    cases c with
    | prepend data => exact hbetween
    | insert key data =>
        obtain ⟨l, hbig, -⟩ := hc
        exact (Dvz.ensures_insert_between h key data hbetween).2 _ hbig as has
    | removeHead => exact hbetween
  · intro hbetween
    obtain ⟨⟨cells', hrep, -⟩, -⟩ := hc.rep h nofun fun _ _ => hbetween
    exact ⟨_, hrep.wellFormed⟩

/-- Run lemma. -/
theorem rep_of_orderly {x : Shared δ}
    (h : Reach (Completes .dvz) (fun y c => ¬ y.list.Finds c.Between) (created δ) x) :
    ∃ cells, Rep true x.list cells ∧
      play .dvz (x.log.map Event.call) = (items cells, x.log) := by
  refine rep_of_reach (v := .dvz) nofun (fun y c cells hok hrep _ _ hbetween => ?_) h
  exact hok ⟨_, hrep.contents, hbetween⟩

/-- The list of os161-dvz-main stays well-formed as long as no insert has a key greater than the
first one and smaller than a later one; such an insert makes it ill-formed. -/
theorem dvz_wellFormed {x : Shared δ}
    (h : Reach (Completes .dvz) (fun y c => ¬ y.list.Finds c.Between) (created δ) x) :
    (∃ as, WellFormed x.list as) ∧
    ∀ c x', Completes .dvz x c x' →
      ((∃ as, WellFormed x'.list as) ↔ ¬ x.list.Finds c.Between) := by
  obtain ⟨cells, hrep, -⟩ := rep_of_orderly h
  refine ⟨⟨_, hrep.wellFormed⟩, fun c x' hc => ?_⟩
  rw [hrep.contents.finds_iff]
  exact hc.wellFormed_iff hrep

/-- The keys `1` and `3`. -/
theorem dvz_wellFormed_ends : ∃ x : Shared Nat,
    x.log.map Event.call = [.insert 1 (some 10), .insert 3 (some 30)] ∧
      ∃ as, WellFormed x.list as := by
  obtain ⟨x, hx, hlog⟩ := exists_reach (v := .dvz) Call.Between
    [.insert 1 (some 10), .insert 3 (some 30)] (by decide)
  exact ⟨x, hlog, (dvz_wellFormed hx).1⟩

/-- The keys `1`, `3` and `2`: the `prev` pointer of the node with key `3` leads to the one with
key `1`. -/
theorem dvz_illFormed_between : ∃ x : Shared Nat, Reach (Completes .dvz) anyStep (created Nat) x ∧
    x.log.map Event.call = [.insert 1 (some 10), .insert 3 (some 30), .insert 2 (some 20)] ∧
      ¬ ∃ as, WellFormed x.list as := by
  obtain ⟨x, hx, hlog⟩ := exists_reach (v := .dvz) Call.Between
    [.insert 1 (some 10), .insert 3 (some 30)] (by decide)
  obtain ⟨cells, hrep, hplay⟩ := rep_of_orderly hx
  rw [hlog] at hplay
  obtain ⟨x', hc⟩ := exists_completes (v := .dvz) hrep.weaken (.insert 2 (some 20))
  refine ⟨x', (hx.mono fun _ _ _ => trivial).tail trivial hc, ?_, ?_⟩
  · obtain ⟨l, -, hlog'⟩ := hc
    rw [hlog', List.map_append, hlog, List.map_singleton, call_event]
    rfl
  · rw [hc.wellFormed_iff hrep, not_not]
    obtain ⟨hitems, -⟩ := Prod.ext_iff.1 hplay
    have hitems : [(1, some 10), (3, some 30)] = items cells := hitems
    rw [← hitems]
    decide

/-! ## os161-vud-proj1-proj2 -/

/-- Whatever the threads do: when the lock is free, the list is well-formed and holds the items that
have been added and not been taken, each `linked_list_remove_head` has returned nothing exactly
when all that had been added before it had been taken, and every function can run to its end. -/
theorem vud_list_keeps {τ : Type} [DecidableEq τ] {s : Machine τ Unit Empty (Shared δ) (Point δ)}
    (h : Reach (Step (synch .vud (listUsers .vud τ δ))) anyStep (start .vud τ δ) s)
    (hfree : (s.shared.locks ()).held = false) :
    (∃ as, WellFormed s.shared.data.list as) ∧
    (∃ is, s.shared.data.list.Contents is ∧
      (is : Multiset (Item δ)) + taken s.shared.data.log = added s.shared.data.log) ∧
    (∀ pre post ret key, s.shared.data.log = pre ++ .removeHead ret key :: post →
      ((ret = none ∧ key = none) ↔ added pre = taken pre)) ∧
    ∀ c, ∃ x', Completes .vud s.shared.data c x' := by
  obtain ⟨cells, hrep, hplay⟩ := rep_of_completes (reach_completes h hfree)
  have hbag := bag_play .vud (s.shared.data.log.map Event.call)
  have hhead := removeHead_play .vud (s.shared.data.log.map Event.call)
  rw [hplay] at hbag hhead
  exact ⟨⟨_, hrep.wellFormed⟩, ⟨_, hrep.contents, hbag⟩, fun pre post ret key => hhead pre post ret key,
    exists_completes hrep⟩

/-- The step that makes a node at the address `a`. -/
theorem small_createNode {key : Locals δ → Lst δ → Option Key} {l : Locals δ} {x : Lst δ} {k : Key}
    (a : Addr) (ha : x.mem a = none) (hk : key l x = some k) :
    Small (linkedListCreateNode key) (l, x) .skip
      (l.setNewnode a k, x.put a { prev := none, next := none, key := k, data := l.data }) :=
  .pick ⟨a, k, ha, hk, rfl, rfl⟩

/-- Thread `1` inserts the key `1`. -/
theorem vud_list_keeps_insert : ∃ s : Machine Nat Unit Empty (Shared Nat) (Point Nat),
    s.shared.data.log = [.insert 1 (some 10)] ∧ ∃ as, WellFormed s.shared.data.list as := by
  have begin : Reach (Step (synch .vud (listUsers .vud Nat Nat))) anyStep (start .vud Nat Nat) _ :=
    .refl
  have locked := reach_lockAcquire (t := 1) allowsCalls_anyStep
    (begin.tail (a := 1) trivial (.run rfl (.client (.call (.insert 1 (some 10)) _)))) trivial rfl
    (.acquire _) rfl rfl
  have searched := locked.tail (a := 1) trivial (.run rfl (.client (.small (.seqStep (.stmt rfl)))))
    |>.tail (a := 1) trivial (.run rfl (.client (.small .seqSkip)))
    |>.tail (a := 1) trivial (.run rfl (.client (.small (.seqStep .loop))))
    |>.tail (a := 1) trivial (.run rfl (.client (.small (.seqStep (.iteFalse rfl)))))
    |>.tail (a := 1) trivial (.run rfl (.client (.small .seqSkip)))
    |>.tail (a := 1) trivial (.run rfl (.client (.small (.seqStep (.stmt rfl)))))
    |>.tail (a := 1) trivial (.run rfl (.client (.small .seqSkip)))
  have linked := searched.tail (a := 1) trivial
      (.run rfl (.client (.small (.seqStep (small_createNode 0 rfl rfl)))))
    |>.tail (a := 1) trivial (.run rfl (.client (.small .seqSkip)))
    |>.tail (a := 1) trivial (.run rfl (.client (.small (.seqStep (.iteTrue rfl)))))
    |>.tail (a := 1) trivial (.run rfl (.client (.small (.seqStep (.seqStep (.stmt rfl))))))
    |>.tail (a := 1) trivial (.run rfl (.client (.small (.seqStep .seqSkip))))
    |>.tail (a := 1) trivial (.run rfl (.client (.small (.seqStep (.seqStep (.iteFalse rfl))))))
    |>.tail (a := 1) trivial (.run rfl (.client (.small (.seqStep (.seqStep (.stmt rfl))))))
    |>.tail (a := 1) trivial (.run rfl (.client (.small (.seqStep .seqSkip))))
    |>.tail (a := 1) trivial (.run rfl (.client (.small (.seqStep (.seqStep (.stmt rfl))))))
    |>.tail (a := 1) trivial (.run rfl (.client (.small (.seqStep .seqSkip))))
    |>.tail (a := 1) trivial (.run rfl (.client (.small .seqSkip)))
    |>.tail (a := 1) trivial (.run rfl (.client (.small (.seqStep (.stmt rfl)))))
    |>.tail (a := 1) trivial (.run rfl (.client (.small .seqSkip)))
  have released := reach_lockRelease (t := 1) allowsCalls_anyStep linked trivial rfl (.release _ _) rfl
    rfl rfl
  exact ⟨_, rfl, (vud_list_keeps released rfl).1⟩

end Os161.LinkedList
