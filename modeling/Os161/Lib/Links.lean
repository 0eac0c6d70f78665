import Mathlib.Data.List.Nodup
import Mathlib.Logic.Function.Basic
import Mathlib.Tactic.Common

set_option autoImplicit false

/-!
# Singly linked lists

A list in memory is a pointer to its first node and the function `next` from a node to the pointer
to the one behind it. `Listed next o l`: the nodes from `o` on are `l`. `search` is the loop that
goes through a list, and `unlink` the loop with a pointer to the pointer that takes one node out.
Both take `fuel`, the number of rounds they may make.
-/

namespace Os161.Lib.Links

variable {α ε : Type}

/-- The nodes from `o` on. -/
def Listed (next : α → Option α) : Option α → List α → Prop
  | o, [] => o = none
  | o, a :: l => o = some a ∧ Listed next (next a) l

variable {next next' : α → Option α} {o base : Option α} {a b : α} {l l' : List α}

theorem Listed.unique (h : Listed next o l) (h' : Listed next o l') : l = l' := by
  induction l generalizing o l' with
  | nil =>
      cases l' with
      | nil => rfl
      | cons b l' =>
          obtain rfl : o = none := h
          cases h'.1
  | cons a l ih =>
      obtain ⟨rfl, h⟩ := h
      cases l' with
      | nil => cases h'
      | cons b l' =>
          obtain ⟨e, h'⟩ := h'
          cases e
          rw [ih h h']

/-- A list is the same when its nodes lead on as before. -/
theorem Listed.congr (h : Listed next o l) (hnext : ∀ b ∈ l, next' b = next b) :
    Listed next' o l := by
  induction l generalizing o with
  | nil => exact h
  | cons a l ih =>
      refine ⟨h.1, ?_⟩
      rw [hnext a List.mem_cons_self]
      exact ih h.2 fun b hb => hnext b (List.mem_cons_of_mem a hb)

/-- A new node in front. -/
theorem Listed.push (h : Listed next o l) (ha : next' a = o) (hnext : ∀ b ∈ l, next' b = next b) :
    Listed next' (some a) (a :: l) := by
  refine ⟨rfl, ?_⟩
  rw [ha]
  exact h.congr hnext

theorem Listed.eq_none (h : Listed next none l) : l = [] := by
  cases l with
  | nil => rfl
  | cons a l => cases h.1

theorem Listed.eq_some (h : Listed next (some a) l) : ∃ l', l = a :: l' ∧ Listed next (next a) l' := by
  cases l with
  | nil => cases h
  | cons b l =>
      obtain ⟨e, h⟩ := h
      cases e
      exact ⟨l, rfl, h⟩

/-! ## Loops -/

/-- The first node at which `stop` holds; `stop` may fail. -/
def search (next : α → Option α) (stop : α → Except ε Bool) :
    Nat → Option α → Option (Except ε (Option α))
  | 0, _ => none
  | _ + 1, none => some (.ok none)
  | fuel + 1, some a =>
      match stop a with
      | .error e => some (.error e)
      | .ok true => some (.ok (some a))
      | .ok false => search next stop fuel (next a)

theorem search_eq {stop : α → Except ε Bool} {p : α → Bool} (h : Listed next o l)
    (hstop : ∀ a ∈ l, stop a = .ok (p a)) {fuel : Nat} (hfuel : l.length < fuel) :
    search next stop fuel o = some (.ok (l.find? p)) := by
  induction l generalizing o fuel with
  | nil =>
      obtain rfl : o = none := h
      cases fuel with
      | zero => cases hfuel
      | succ fuel => rfl
  | cons a l ih =>
      obtain ⟨rfl, h⟩ := h
      cases fuel with
      | zero => cases hfuel
      | succ fuel =>
          have ha := hstop a List.mem_cons_self
          have hrest := ih h (fun b hb => hstop b (List.mem_cons_of_mem a hb))
            (Nat.lt_of_succ_lt_succ hfuel)
          unfold search
          rw [ha]
          cases hp : p a with
          | true => simp [hp]
          | false => simpa [hp] using hrest

/-- With more rounds, a search that has ended gives the same. -/
theorem search_mono {stop : α → Except ε Bool} {fuel fuel' : Nat} {x : Except ε (Option α)}
    (h : search next stop fuel o = some x) (hle : fuel ≤ fuel') :
    search next stop fuel' o = some x := by
  induction fuel generalizing o fuel' with
  | zero => cases h
  | succ fuel ih =>
      obtain ⟨fuel', rfl⟩ : ∃ n, fuel' = n + 1 := ⟨fuel' - 1, by omega⟩
      cases o with
      | none => exact h
      | some a =>
          unfold search at h ⊢
          split at h
          · exact h
          · exact h
          · exact ih h (Nat.le_of_succ_le_succ hle)

section Unlink

variable [DecidableEq α]

/-- The loop of `unlink`; `guy` is the node whose pointer is looked at, or `none` for the pointer to
the first node. -/
def unlinkFrom (base : Option α) (next : α → Option α) (a : α) :
    Nat → Option α → Option (Option α × (α → Option α))
  | 0, _ => none
  | fuel + 1, guy =>
      match guy.elim base next with
      | none => some (base, next)
      | some b =>
          if b = a then
            some (match guy with
              | none => (next a, next)
              | some c => (base, Function.update next c (next a)))
          else unlinkFrom base next a fuel (some b)

/-- The list without the node `a`: the pointer to its first node, and the pointers of the nodes. -/
def unlink (base : Option α) (next : α → Option α) (a : α) (fuel : Nat) :
    Option (Option α × (α → Option α)) :=
  unlinkFrom base next a fuel none

theorem unlinkFrom_mono {fuel fuel' : Nat} {x : Option α × (α → Option α)}
    (h : unlinkFrom base next a fuel o = some x) (hle : fuel ≤ fuel') :
    unlinkFrom base next a fuel' o = some x := by
  induction fuel generalizing o fuel' with
  | zero => cases h
  | succ fuel ih =>
      obtain ⟨fuel', rfl⟩ : ∃ n, fuel' = n + 1 := ⟨fuel' - 1, by omega⟩
      unfold unlinkFrom at h ⊢
      split at h
      · exact h
      · split at h
        · rename_i heq
          rw [if_pos heq]
          exact h
        · rename_i hne
          rw [if_neg hne]
          exact ih h (Nat.le_of_succ_le_succ hle)

theorem unlinkFrom_eq (base : Option α) {guy : α} (h : Listed next (next guy) l) (hnodup : (guy :: l).Nodup)
    {fuel : Nat} (hfuel : l.length < fuel) :
    ∃ next', unlinkFrom base next a fuel (some guy) = some (base, next') ∧
      Listed next' (next' guy) (l.erase a) ∧ ∀ b, b ∉ guy :: l → next' b = next b := by
  induction l generalizing guy fuel with
  | nil =>
      cases fuel with
      | zero => cases hfuel
      | succ fuel =>
          have hnil : next guy = none := h
          refine ⟨next, ?_, hnil, fun _ _ => rfl⟩
          simp [unlinkFrom, hnil]
  | cons b l ih =>
      obtain ⟨hb, h⟩ := h
      cases fuel with
      | zero => cases hfuel
      | succ fuel =>
          obtain ⟨hguy, hnodup'⟩ := List.nodup_cons.1 hnodup
          by_cases hba : b = a
          · subst hba
            refine ⟨Function.update next guy (next b), ?_, ?_, fun c hc => ?_⟩
            · simp [unlinkFrom, hb]
            · rw [Function.update_self, List.erase_cons_head]
              refine h.congr fun c hc => Function.update_of_ne ?_ _ _
              rintro rfl
              exact hguy (List.mem_cons_of_mem b hc)
            · refine Function.update_of_ne ?_ _ _
              rintro rfl
              exact hc List.mem_cons_self
          · obtain ⟨next', hrun, hlist, hout⟩ := ih h hnodup' (Nat.lt_of_succ_lt_succ hfuel)
            refine ⟨next', ?_, ?_, fun c hc => hout c fun hmem => hc (List.mem_cons_of_mem _ hmem)⟩
            · simpa [unlinkFrom, hb, hba] using hrun
            · rw [List.erase_cons_tail (by simpa using hba)]
              exact ⟨(hout guy hguy).trans hb, hlist⟩

theorem unlink_eq (h : Listed next base l) (hnodup : l.Nodup) {fuel : Nat}
    (hfuel : l.length < fuel) :
    ∃ base' next', unlink base next a fuel = some (base', next') ∧
      Listed next' base' (l.erase a) ∧ ∀ b, b ∉ l → next' b = next b := by
  cases l with
  | nil =>
      obtain rfl : base = none := h
      cases fuel with
      | zero => cases hfuel
      | succ fuel => exact ⟨none, next, rfl, rfl, fun _ _ => rfl⟩
  | cons b l =>
      obtain ⟨rfl, h⟩ := h
      cases fuel with
      | zero => cases hfuel
      | succ fuel =>
          by_cases hba : b = a
          · subst hba
            refine ⟨next b, next, by simp [unlink, unlinkFrom], ?_, fun _ _ => rfl⟩
            rwa [List.erase_cons_head]
          · obtain ⟨next', hrun, hlist, hout⟩ := unlinkFrom_eq (some b) (a := a) h hnodup
              (Nat.lt_of_succ_lt_succ hfuel)
            refine ⟨some b, next', ?_, ?_, hout⟩
            · simpa [unlink, unlinkFrom, hba] using hrun
            · rw [List.erase_cons_tail (by simpa using hba)]
              exact ⟨rfl, hlist⟩

end Unlink

end Os161.Lib.Links
