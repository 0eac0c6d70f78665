import Os161.List.Histories

set_option autoImplicit false

/-!
# Sorted lists

Both kernels keep the keys in order as long as no `linked_list_prepend` finds the smallest `int` as
the first key: one less than it is the greatest one.
-/

namespace Os161.LinkedList

open Os161.Lib.Command
open Os161.Lib.Runs
open Os161.Synch

/-- An element goes between those that may stand before it and those that may stand behind it. -/
theorem pairwise_takeWhile_cons_dropWhile {α : Type} {R : α → α → Prop} {p : α → Bool} {a : α}
    {as : List α} (htrans : ∀ b c, R a b → R b c → R a c) (h : as.Pairwise R)
    (hbefore : ∀ b ∈ as, p b = true → R b a) (hbehind : ∀ b ∈ as, p b = false → R a b) :
    (as.takeWhile p ++ a :: as.dropWhile p).Pairwise R := by
  induction as with
  | nil => exact List.pairwise_singleton R a
  | cons b as ih =>
      obtain ⟨hb, has⟩ := List.pairwise_cons.1 h
      cases hp : p b with
      | true =>
          rw [List.takeWhile_cons_of_pos hp, List.dropWhile_cons_of_pos hp, List.cons_append,
            List.pairwise_cons]
          refine ⟨fun c hc => ?_, ih has (fun c hc => hbefore c (List.mem_cons_of_mem b hc))
            fun c hc => hbehind c (List.mem_cons_of_mem b hc)⟩
          rcases List.mem_append.1 hc with hc | hc
          · exact hb c ((List.takeWhile_sublist p).mem hc)
          · rcases List.mem_cons.1 hc with rfl | hc
            · exact hbefore b List.mem_cons_self hp
            · exact hb c ((List.dropWhile_sublist p).mem hc)
      | false =>
          have hnot : ¬ p b = true := by rw [hp]; exact Bool.false_ne_true
          rw [List.takeWhile_cons_of_neg hnot, List.dropWhile_cons_of_neg hnot, List.nil_append,
            List.pairwise_cons]
          refine ⟨fun c hc => ?_, h⟩
          have hab := hbehind b List.mem_cons_self hp
          rcases List.mem_cons.1 hc with rfl | hc
          · exact hab
          · exact htrans b c hab (hb c hc)

variable {δ : Type}

/-- The keys are in non-decreasing order. -/
def Ordered (is : List (Item δ)) : Prop := is.Pairwise fun i j => i.1.toInt ≤ j.1.toInt

instance (is : List (Item δ)) : Decidable (Ordered is) :=
  inferInstanceAs (Decidable (is.Pairwise _))

/-- The keys read along `next` are in non-decreasing order. -/
def Lst.Sorted (x : Lst δ) : Prop := ∃ is, x.Contents is ∧ Ordered is

/-- A key in front of the list is made from `INT_MIN`. -/
def Call.Wraps : Call δ → List (Item δ) → Prop
  | .prepend _, i :: _ => i.1 = BitVec.intMin 32
  | .prepend _, [] => False
  | .insert _ _, _ => False
  | .removeHead, _ => False

instance (c : Call δ) (is : List (Item δ)) : Decidable (c.Wraps is) :=
  match c, is with
  | .prepend _, i :: _ => inferInstanceAs (Decidable (i.1 = BitVec.intMin 32))
  | .prepend _, [] => inferInstanceAs (Decidable False)
  | .insert _ _, _ => inferInstanceAs (Decidable False)
  | .removeHead, _ => inferInstanceAs (Decidable False)

/-! ## What a call keeps -/

theorem Lst.Contents.sorted_iff {x : Lst δ} {is : List (Item δ)} (h : x.Contents is) :
    x.Sorted ↔ Ordered is := by
  constructor
  · rintro ⟨js, hjs, hordered⟩
    rwa [h.unique hjs]
  · exact fun hordered => ⟨is, h, hordered⟩

theorem ordered_insertItem (v : Version) (key : Key) (data : Option δ) {is : List (Item δ)}
    (h : Ordered is) : Ordered (insertItem v key data is) := by
  have htrans : ∀ i j : Item δ, key.toInt ≤ i.1.toInt → i.1.toInt ≤ j.1.toInt →
      key.toInt ≤ j.1.toInt := fun _ _ => le_trans
  cases v with
  | vud =>
      refine pairwise_takeWhile_cons_dropWhile htrans h (fun i _ hi => ?_) fun i _ hi => ?_
      · exact (BitVec.slt_iff_toInt_lt.1 hi).le
      · rw [BitVec.slt_eq_decide, decide_eq_false_iff_not] at hi
        exact not_lt.1 hi
  | dvz =>
      cases is with
      | nil => exact List.pairwise_singleton _ _
      | cons i is =>
          obtain ⟨hi, his⟩ := List.pairwise_cons.1 h
          change Ordered (if key.sle i.1 = true then _ else _)
          split
          · rename_i hle
            refine List.pairwise_cons.2 ⟨fun j hj => ?_, h⟩
            have hle := BitVec.sle_iff_toInt_le.1 hle
            rcases List.mem_cons.1 hj with rfl | hj
            · exact hle
            · exact hle.trans (hi j hj)
          · rename_i hle
            rw [BitVec.sle_iff_toInt_le, not_le] at hle
            refine List.pairwise_cons.2 ⟨fun j hj => ?_,
              pairwise_takeWhile_cons_dropWhile htrans his (fun j _ hj => ?_) fun j _ hj => ?_⟩
            · rcases List.mem_append.1 hj with hj | hj
              · exact hi j ((List.takeWhile_sublist _).mem hj)
              · rcases List.mem_cons.1 hj with rfl | hj
                · exact hle.le
                · exact hi j ((List.dropWhile_sublist _).mem hj)
            · exact BitVec.sle_iff_toInt_le.1 hj
            · rw [BitVec.sle_eq_decide, decide_eq_false_iff_not, not_le] at hj
              exact hj.le

/-- One less than a key is smaller, except for the smallest one. -/
theorem toInt_sub_one_le_iff (key : Key) :
    (key - 1).toInt ≤ key.toInt ↔ key ≠ BitVec.intMin 32 := by
  constructor
  · rintro hle rfl
    exact absurd hle (by decide)
  · intro hne
    have hne : key.toInt ≠ (BitVec.intMin 32).toInt := fun h => hne (BitVec.toInt_inj.1 h)
    have hmin : (BitVec.intMin 32).toInt = -2147483648 := by decide
    have hsub : (key - 1).toInt = _ := BitVec.toInt_sub
    have hone : (1 : Key).toInt = 1 := by decide
    have hlo := BitVec.le_toInt key
    have hhi := BitVec.toInt_lt (x := key)
    rw [hsub, hone, Int.bmod_eq_of_le] <;> omega

/-- Step lemma. -/
theorem ordered_apply_iff (v : Version) (c : Call δ) {is : List (Item δ)} (h : Ordered is) :
    Ordered (c.apply v is).1 ↔ ¬ c.Wraps is := by
  cases c with
  | prepend data =>
      cases is with
      | nil => exact ⟨fun _ => id, fun _ => List.pairwise_singleton _ _⟩
      | cons i is =>
          refine Iff.trans ?_ (toInt_sub_one_le_iff i.1)
          refine List.pairwise_cons.trans ⟨fun hall => hall.1 i List.mem_cons_self,
            fun hle => ⟨fun j hj => ?_, h⟩⟩
          rcases List.mem_cons.1 hj with rfl | hj
          · exact hle
          · exact hle.trans ((List.pairwise_cons.1 h).1 j hj)
  | insert key data => exact ⟨fun _ => id, fun _ => ordered_insertItem v key data h⟩
  | removeHead =>
      cases is with
      | nil => exact ⟨fun _ => id, fun _ => h⟩
      | cons i is => exact ⟨fun _ => id, fun _ => (List.pairwise_cons.1 h).2⟩

/-! ## Calls one after the other -/

section Runs

variable {v : Version} {x x' : Shared δ}

/-- Run lemma. -/
theorem ordered_of_reach
    (h : Reach (Completes v) (fun y c => ¬ y.list.Finds c.Wraps) (created δ) x) :
    ∃ cells, Rep (v == .vud) x.list cells ∧ Ordered (items cells) := by
  induction h with
  | refl => exact ⟨[], rep_create _, List.Pairwise.nil⟩
  | @tail y y' c hreach hok hc ih =>
      obtain ⟨cells, hrep, hordered⟩ := ih
      obtain ⟨⟨cells', hrep', hitems⟩, -⟩ := hc.rep hrep (fun hv => by rw [hv]; rfl)
        fun hv hb => by rw [hv] at hb; cases hb
      rw [hrep.contents.finds_iff] at hok
      refine ⟨cells', hrep', ?_⟩
      rw [hitems]
      exact (ordered_apply_iff v c hordered).2 hok

/-- Both lists stay sorted, and `linked_list_remove_head` returns a smallest key, as long as no
`linked_list_prepend` finds `INT_MIN` as the first key. One that does ends the order. -/
theorem lists_sorted (h : Reach (Completes v) (fun y c => ¬ y.list.Finds c.Wraps) (created δ) x) :
    x.list.Sorted ∧
    (∀ x' is, Completes v x .removeHead x' → x.list.Contents is → is ≠ [] →
      ∃ i ∈ is, x'.log = x.log ++ [.removeHead i.2 (some i.1)] ∧
        ∀ j ∈ is, i.1.toInt ≤ j.1.toInt) ∧
    ∀ c x', Completes v x c x' → (x'.list.Sorted ↔ ¬ x.list.Finds c.Wraps) := by
  obtain ⟨cells, hrep, hordered⟩ := ordered_of_reach h
  have hstep := fun c x' (hc : Completes v x c x') =>
    hc.rep hrep (fun hv => by rw [hv]; rfl) fun hv hb => by rw [hv] at hb; cases hb
  refine ⟨⟨_, hrep.contents, hordered⟩, fun x' is hc his hne => ?_, fun c x' hc => ?_⟩
  · obtain rfl := his.unique hrep.contents
    obtain ⟨-, hlog⟩ := hstep .removeHead x' hc
    cases hcells : items cells with
    | nil => exact absurd hcells hne
    | cons i is =>
        rw [hcells] at hlog hordered
        refine ⟨i, List.mem_cons_self, hlog, fun j hj => ?_⟩
        rcases List.mem_cons.1 hj with rfl | hj
        · exact le_rfl
        · exact (List.pairwise_cons.1 hordered).1 j hj
  · obtain ⟨⟨cells', hrep', hitems⟩, -⟩ := hstep c x' hc
    rw [hrep'.contents.sorted_iff, hitems, hrep.contents.finds_iff]
    exact ordered_apply_iff v c hordered

/-- A key made by a prepend, and `INT_MIN` in front of it. -/
theorem lists_sorted_insert : ∃ x : Shared Nat,
    x.log.map Event.call =
        [.insert 0 (some 10), .prepend (some 20), .insert (BitVec.intMin 32) (some 30)] ∧
      x.list.Sorted := by
  obtain ⟨x, hx, hlog⟩ := exists_reach (v := .dvz) Call.Wraps
    [.insert 0 (some 10), .prepend (some 20), .insert (BitVec.intMin 32) (some 30)] (by decide)
  exact ⟨x, hlog, (lists_sorted hx).1⟩

/-- `INT_MIN` is the key of the only node, and another one is put in front of it. -/
def overflow : List (Call Nat) := [.insert (BitVec.intMin 32) (some 10), .prepend (some 20)]

theorem exists_unsorted (v : Version) : ∃ x : Shared Nat,
    Reach (Completes v) anyStep (created Nat) x ∧ x.log.map Event.call = overflow ∧
      ¬ x.list.Sorted ∧ ∀ x', Completes v x .removeHead x' →
        x'.log = x.log ++ [.removeHead (some 20) (some (BitVec.intMax 32))] := by
  obtain ⟨x, hx, hlog⟩ := exists_reach (v := v) (fun _ _ => False) overflow fun _ _ => id
  obtain ⟨cells, hrep, hplay⟩ := rep_of_completes hx
  rw [hlog] at hplay
  have hitems : (play v overflow).1 =
      [(BitVec.intMax 32, some 20), (BitVec.intMin 32, some 10)] := by cases v <;> decide
  rw [hplay] at hitems
  refine ⟨x, hx.mono fun _ _ _ => trivial, hlog, ?_, fun x' hc => ?_⟩
  · rw [hrep.contents.sorted_iff, show items cells = _ from hitems]
    decide
  · obtain ⟨-, hlog'⟩ := hc.rep hrep (fun hv => by rw [hv]; rfl)
      fun hv hb => by rw [hv] at hb; cases hb
    rw [hlog', show items cells = _ from hitems]
    rfl

/-- The new node has the key `INT_MAX`, and `linked_list_remove_head` returns that one first. -/
theorem lists_unsorted_prepend :
    (∃ x : Shared Nat, Reach (Completes .dvz) anyStep (created Nat) x ∧
      x.log.map Event.call = overflow ∧ ¬ x.list.Sorted ∧
      ∀ x', Completes .dvz x .removeHead x' →
        x'.log = x.log ++ [.removeHead (some 20) (some (BitVec.intMax 32))]) ∧
    ∃ x : Shared Nat, Reach (Completes .vud) anyStep (created Nat) x ∧
      x.log.map Event.call = overflow ∧ ¬ x.list.Sorted ∧
      ∀ x', Completes .vud x .removeHead x' →
        x'.log = x.log ++ [.removeHead (some 20) (some (BitVec.intMax 32))] :=
  ⟨exists_unsorted .dvz, exists_unsorted .vud⟩

end Runs

end Os161.LinkedList
