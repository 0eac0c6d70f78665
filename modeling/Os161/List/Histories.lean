import Mathlib.Algebra.Order.Group.Multiset
import Os161.List.Dvz
import Os161.List.Vud
import Os161.List.WellFormed

set_option autoImplicit false

/-!
# Histories of a list

`Completes` is a whole call of a function. Calls one after the other refine `play`, which folds
`Call.apply` over the contents (`rep_of_reach`); when threads call the functions concurrently and
the lock is free, the list is what such a sequence of calls has made of it (`reach_completes`).
-/

namespace Os161.LinkedList

open Os161.Lib.Command
open Os161.Lib.Runs
open Os161.Lib.Monitor
open Os161.Synch

variable {δ : Type}

/-- A new list. -/
def created (δ : Type) : Shared δ := { list := linkedListCreate, log := [] }

/-- A whole call of a function. -/
def Completes (v : Version) (x : Shared δ) (c : Call δ) (x' : Shared δ) : Prop :=
  ∃ l, Big (c.code v) (c.args, x.list) (l, x'.list) ∧ x'.log = x.log ++ [c.event l]

/-- What calls, one after the other, make of the contents of a new list, and what happens in
them. -/
def play (v : Version) (calls : List (Call δ)) : List (Item δ) × List (Event δ) :=
  calls.foldl (fun p c => ((c.apply v p.1).1, p.2 ++ [(c.apply v p.1).2])) ([], [])

@[simp] theorem play_nil (v : Version) : play v ([] : List (Call δ)) = ([], []) := rfl

@[simp] theorem play_concat (v : Version) (calls : List (Call δ)) (c : Call δ) :
    play v (calls ++ [c]) =
      ((c.apply v (play v calls).1).1, (play v calls).2 ++ [(c.apply v (play v calls).1).2]) := by
  unfold play
  rw [List.foldl_concat]

/-! ## What is added and what is taken -/

/-- The items that calls have put in the list. -/
def added : List (Event δ) → Multiset (Item δ)
  | [] => 0
  | .prepend key data :: es | .insert key data :: es => {(key, data)} + added es
  | .removeHead _ _ :: es => added es

/-- The items that `linked_list_remove_head` has returned. -/
def taken : List (Event δ) → Multiset (Item δ)
  | [] => 0
  | .removeHead ret (some key) :: es => {(key, ret)} + taken es
  | .prepend _ _ :: es | .insert _ _ :: es | .removeHead _ none :: es => taken es

theorem added_append (es fs : List (Event δ)) : added (es ++ fs) = added es + added fs := by
  induction es with
  | nil => exact (zero_add _).symm
  | cons e es ih => cases e <;> simp [added, ih]

theorem taken_append (es fs : List (Event δ)) : taken (es ++ fs) = taken es + taken fs := by
  induction es with
  | nil => exact (zero_add _).symm
  | cons e es ih =>
      cases e with
      | prepend key data => exact ih
      | insert key data => exact ih
      | removeHead ret key => cases key <;> simp [taken, ih]

theorem insertItem_perm (v : Version) (key : Key) (data : Option δ) (is : List (Item δ)) :
    (insertItem v key data is).Perm ((key, data) :: is) := by
  cases v with
  | vud =>
      refine List.perm_middle.trans (List.Perm.cons _ ?_)
      rw [List.takeWhile_append_dropWhile]
  | dvz =>
      cases is with
      | nil => exact .refl _
      | cons i is =>
          change (if key.sle i.1 = true then _ else _ : List (Item δ)).Perm _
          split
          · exact .refl _
          · refine (List.Perm.cons _ (List.perm_middle.trans (List.Perm.cons _ ?_))).trans
              (.swap _ _ _)
            rw [List.takeWhile_append_dropWhile]

/-- A call keeps the bag of all items. -/
theorem bag_apply (v : Version) (c : Call δ) (is : List (Item δ)) :
    ((c.apply v is).1 : Multiset (Item δ)) + taken [(c.apply v is).2] =
      is + added [(c.apply v is).2] := by
  have hcons : ∀ (i : Item δ) (is : List (Item δ)), ((i :: is : List (Item δ)) : Multiset (Item δ)) =
      is + {i} := by
    intro i is
    rw [← Multiset.cons_coe, add_comm, Multiset.singleton_add]
  cases c with
  | prepend data => simp [Call.apply, added, taken, hcons]
  | insert key data =>
      have hbag := Multiset.coe_eq_coe.2 (insertItem_perm v key data is)
      simp [Call.apply, added, taken, hbag, hcons]
  | removeHead =>
      cases is with
      | nil => simp [Call.apply, added, taken]
      | cons i is => simp [Call.apply, added, taken, hcons]

/-- The list holds what has been added and not been taken. -/
theorem bag_play (v : Version) (calls : List (Call δ)) :
    ((play v calls).1 : Multiset (Item δ)) + taken (play v calls).2 = added (play v calls).2 := by
  induction calls using List.reverseRecOn with
  | nil => rfl
  | append_singleton calls c ih =>
      rw [play_concat, taken_append, added_append, add_comm (taken _), ← add_assoc, bag_apply,
        add_right_comm, ih]

/-- `linked_list_remove_head` finds no node exactly when all that has been added has been taken. -/
theorem removeHead_play (v : Version) (calls : List (Call δ)) (pre post : List (Event δ))
    (ret : Option δ) (key : Option Key)
    (h : (play v calls).2 = pre ++ .removeHead ret key :: post) :
    (ret = none ∧ key = none) ↔ added pre = taken pre := by
  induction calls using List.reverseRecOn generalizing post with
  | nil => exact absurd h.symm (by simp)
  | append_singleton calls c ih =>
      rw [play_concat] at h
      rcases List.eq_nil_or_concat post with rfl | ⟨post, e, rfl⟩
      · obtain ⟨rfl, hevent⟩ := List.append_inj' h rfl
        have hbag := bag_play v calls
        cases c with
        | prepend data => cases hevent
        | insert key data => cases hevent
        | removeHead =>
            cases his : (play v calls).1 with
            | nil =>
                rw [his] at hevent hbag
                cases hevent
                refine ⟨fun _ => ?_, fun _ => ⟨rfl, rfl⟩⟩
                rw [← hbag]
                exact zero_add _
            | cons i is =>
                rw [his] at hevent hbag
                cases hevent
                refine ⟨fun h => absurd h.2 (by simp), fun h => ?_⟩
                rw [h, add_eq_right] at hbag
                exact absurd hbag (by simp)
      · rw [List.concat_eq_append, ← List.cons_append, ← List.append_assoc] at h
        exact ih post (List.append_inj' h rfl).1

/-! ## The functions, one after the other -/

/-- Every function does what `Call.apply` says. -/
theorem ensures_call {v : Version} {back : Bool} {x : Lst δ} {cells : List (Cell δ)}
    (h : Rep back x cells) (c : Call δ) (hvud : v = .vud → back = true)
    (hdvz : v = .dvz → back = true → ¬ c.Between (items cells)) :
    Ensures (c.code v) (c.args, x) (Done v back c cells) := by
  cases v with
  | dvz =>
      cases c with
      | prepend data => exact Dvz.ensures_prepend h data
      | insert key data => exact Dvz.ensures_insert h key data (hdvz rfl)
      | removeHead => exact Dvz.ensures_removeHead h
  | vud =>
      obtain rfl := hvud rfl
      cases c with
      | prepend data => exact Vud.ensures_prepend h data
      | insert key data => exact Vud.ensures_insert h key data
      | removeHead => exact Vud.ensures_removeHead h

section Runs

variable {v : Version} {back : Bool} {x x' : Shared δ} {c : Call δ}

/-- Step lemma. -/
theorem Completes.rep {cells : List (Cell δ)} (hc : Completes v x c x') (h : Rep back x.list cells)
    (hvud : v = .vud → back = true) (hdvz : v = .dvz → back = true → ¬ c.Between (items cells)) :
    (∃ cells', Rep back x'.list cells' ∧ items cells' = (c.apply v (items cells)).1) ∧
      x'.log = x.log ++ [(c.apply v (items cells)).2] := by
  obtain ⟨l, hbig, hlog⟩ := hc
  obtain ⟨hevent, hrep⟩ := (ensures_call h c hvud hdvz).2 _ hbig
  exact ⟨hrep, by rw [hlog, hevent]⟩

/-- Run lemma. Calls one after the other do to the contents what `play` says. -/
theorem rep_of_reach {ok : Shared δ → Call δ → Prop} (hvud : v = .vud → back = true)
    (hdvz : ∀ (x : Shared δ) c cells, ok x c → Rep back x.list cells → v = .dvz → back = true →
      ¬ c.Between (items cells))
    (h : Reach (Completes v) ok (created δ) x) :
    ∃ cells, Rep back x.list cells ∧ play v (x.log.map Event.call) = (items cells, x.log) := by
  induction h with
  | refl => exact ⟨[], rep_create back, rfl⟩
  | @tail y y' c hreach hok hc ih =>
      obtain ⟨cells, hrep, hplay⟩ := ih
      have hcall := hc.rep hrep hvud fun hv hb => hdvz y c cells hok hrep hv hb
      obtain ⟨⟨cells', hrep', hitems⟩, hlog⟩ := hcall
      refine ⟨cells', hrep', ?_⟩
      have hc : ((c.apply v (items cells)).2).call = c := by
        obtain ⟨l, -, hl⟩ := hc
        rw [hlog, List.append_cancel_left_eq, List.singleton_inj] at hl
        rw [hl, call_event]
      rw [hlog, List.map_append, List.map_singleton, hc, play_concat, hplay, hitems]

/-- Every function returns. -/
theorem exists_completes {cells : List (Cell δ)} (h : Rep (v == .vud) x.list cells) (c : Call δ) :
    ∃ x', Completes v x c x' := by
  have hensures : Ensures (c.code v) (c.args, x.list) (Done v (v == .vud) c cells) :=
    ensures_call h c (fun hv => by rw [hv]; rfl) fun hv hb => by
      rw [hv] at hb
      cases hb
  obtain ⟨⟨l, y⟩, hbig⟩ := hensures.1
  exact ⟨⟨y, x.log ++ [c.event l]⟩, l, hbig, rfl⟩

/-- Run lemma, for the well-formed lists of os161-vud-proj1-proj2 and for the other ones. -/
theorem rep_of_completes {ok : Shared δ → Call δ → Prop}
    (h : Reach (Completes v) ok (created δ) x) :
    ∃ cells, Rep (v == .vud) x.list cells ∧ play v (x.log.map Event.call) = (items cells, x.log) := by
  refine rep_of_reach (fun hv => by rw [hv]; rfl) (fun _ _ _ _ _ hv hb => ?_) h
  rw [hv] at hb
  cases hb

/-- Calls that do not find in the list what `R` says can be made one after the other. -/
theorem exists_reach (R : Call δ → List (Item δ) → Prop) (calls : List (Call δ))
    (hR : ∀ n (hn : n < calls.length), ¬ R calls[n] (play v (calls.take n)).1) :
    ∃ x, Reach (Completes v) (fun y c => ¬ y.list.Finds (R c)) (created δ) x ∧
      x.log.map Event.call = calls := by
  induction calls using List.reverseRecOn with
  | nil => exact ⟨_, .refl, rfl⟩
  | append_singleton calls c ih =>
      have hlast := hR calls.length (by simp)
      rw [List.getElem_concat_length rfl, List.take_left' rfl] at hlast
      obtain ⟨x, hx, hcalls⟩ := ih fun n hn => by
        have h := hR n (by simp; omega)
        rwa [List.getElem_append_left hn, List.take_append_of_le_length hn.le] at h
      obtain ⟨cells, hrep, hplay⟩ := rep_of_completes hx
      rw [hcalls] at hplay
      rw [hplay] at hlast
      obtain ⟨x', hx'⟩ := exists_completes hrep c
      refine ⟨x', hx.tail ?_ hx', ?_⟩
      · rw [hrep.contents.finds_iff]
        exact hlast
      · obtain ⟨l, -, hlog⟩ := hx'
        rw [hlog, List.map_append, hcalls, List.map_singleton, call_event]

end Runs

/-! ## Threads -/

section Threads

variable {τ : Type} {v : Version}

theorem lockOnly_listUsers (v : Version) (τ δ : Type) : LockOnly (listUsers v τ δ) where
  outside t k k' x x' ho hr := by
    cases hr with
    | call c x => rfl
    | small hs => cases ho
  wait k c := c.elim
  signal k c := c.elim
  broadcast k c := c.elim

/-- In a critical section a thread runs the code of its call. -/
theorem smalls_of_within {x y : Shared δ} {c : Call δ} {code : Code δ} {l : Locals δ} {k : Point δ}
    (h : Within (listUsers v τ δ) (.running c code l) x k y) :
    ∃ code' l', k = .running c code' l' ∧ Smalls code (l, x.list) code' (l', y.list) ∧
      y.log = x.log := by
  induction h with
  | refl => exact ⟨code, l, rfl, .refl, rfl⟩
  | tail _ hr ih =>
      obtain ⟨code', l', rfl, hs, hlog⟩ := ih
      cases hr with
      | small hsmall => exact ⟨_, _, rfl, hs.trans (.single hsmall), hlog⟩

/-- A critical section is a whole call. -/
theorem completes_of_section {x x' : Shared δ} {k : Point δ}
    (h : Section (listUsers v τ δ) x k x') : ∃ c, Completes v x c x' := by
  obtain ⟨t, t', k₁, k₂, k', y, hacquire, hwithin, hrelease, rfl⟩ := h
  cases hacquire with
  | acquire c =>
      obtain ⟨code, l, rfl, hs, hlog⟩ := smalls_of_within hwithin
      cases hrelease with
      | release c l => exact ⟨c, l, smalls_iff.1 hs, congrArg (· ++ [c.event l]) hlog⟩

theorem reach_of_sections {x y : Shared δ}
    (h : Reach (Section (listUsers v τ δ)) anyStep x y) : Reach (Completes v) anyStep x y := by
  induction h with
  | refl => exact .refl
  | tail _ _ hsection ih =>
      obtain ⟨c, hc⟩ := completes_of_section hsection
      exact ih.tail trivial hc

variable [DecidableEq τ] {s : Machine τ Unit Empty (Shared δ) (Point δ)}

/-- Boot: the list has been created. -/
def start (v : Version) (τ δ : Type) [DecidableEq τ] :
    Machine τ Unit Empty (Shared δ) (Point δ) :=
  boot v (listUsers v τ δ) (created δ)

/-- While the lock is free, the list is what whole calls have made of it. -/
theorem reach_completes (h : Reach (Step (synch v (listUsers v τ δ))) anyStep (start v τ δ) s)
    (hfree : (s.shared.locks ()).held = false) :
    Reach (Completes v) anyStep (created δ) s.shared.data := by
  obtain ⟨hlinked, habs⟩ := reach_monitor h
  exact reach_of_sections
    (reach_sections (lockOnly_listUsers v τ δ) habs (hlinked.holder_of_free hfree))

end Threads

end Os161.LinkedList
