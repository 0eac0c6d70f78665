import Os161.List.Histories

set_option autoImplicit false

/-!
# The two lists compared

Both kernels put a new key before the first node whose key is not smaller, when this is the first
node of the list. Behind the first node the keys that are equal make a difference: one kernel puts
the new node before them, the other behind them and behind all that follows up to a greater key.
-/

namespace Os161.LinkedList

open Os161.Lib.Runs
open Os161.Synch

variable {δ : Type}

/-- An insert whose key is greater than the first one, and that finds, behind the smaller keys and
before a greater one, another key or the same key with other data. -/
def Call.Ties : Call δ → List (Item δ) → Prop
  | .insert key data, i :: is => i.1.slt key = true ∧
      ∃ j ∈ (is.dropWhile fun j => j.1.slt key).takeWhile fun j => j.1.sle key, j ≠ (key, data)
  | _, _ => False

instance [DecidableEq δ] (c : Call δ) (is : List (Item δ)) : Decidable (c.Ties is) :=
  match c, is with
  | .insert key data, i :: is => inferInstanceAs (Decidable (i.1.slt key = true ∧
      ∃ j ∈ (is.dropWhile fun j => j.1.slt key).takeWhile fun j => j.1.sle key, j ≠ (key, data)))
  | .insert _ _, [] => inferInstanceAs (Decidable False)
  | .prepend _, _ => inferInstanceAs (Decidable False)
  | .removeHead, _ => inferInstanceAs (Decidable False)

/-- An element can be put before or behind elements that are equal to it. -/
theorem append_singleton_eq_cons_iff {α : Type} (a : α) (as : List α) :
    as ++ [a] = a :: as ↔ ∀ b ∈ as, b = a := by
  induction as with
  | nil => simp
  | cons b as ih =>
      rw [List.cons_append, List.cons.injEq, List.forall_mem_cons]
      constructor
      · rintro ⟨rfl, h⟩
        exact ⟨rfl, ih.1 h⟩
      · rintro ⟨rfl, h⟩
        exact ⟨rfl, ih.2 h⟩

/-- An element behind what satisfies `q`, and before the first one that does not satisfy `p`. -/
theorem takeWhile_cons_dropWhile_eq_iff {α : Type} {p q : α → Bool}
    (hpq : ∀ b, p b = true → q b = true) (a : α) (as : List α) :
    as.takeWhile q ++ a :: as.dropWhile q = as.takeWhile p ++ a :: as.dropWhile p ↔
      ∀ b ∈ (as.dropWhile p).takeWhile q, b = a := by
  induction as with
  | nil => simp
  | cons b as ih =>
      cases hp : p b with
      | true => simp [hp, hpq b hp, ih]
      | false =>
          have hneg : ¬ p b = true := by simp [hp]
          rw [List.takeWhile_cons_of_neg hneg, List.dropWhile_cons_of_neg hneg,
            ← append_singleton_eq_cons_iff, List.nil_append]
          have hsplit := (List.takeWhile_append_dropWhile (p := q) (l := b :: as)).symm
          generalize (b :: as).takeWhile q = bs at *
          generalize (b :: as).dropWhile q = cs at *
          rw [hsplit, List.append_cons bs a cs, ← List.cons_append, List.append_cancel_right_eq]

theorem sle_of_slt {a b : Key} (h : a.slt b = true) : a.sle b = true := by
  rw [BitVec.slt_iff_toInt_lt] at h
  rw [BitVec.sle_iff_toInt_le]
  exact h.le

/-- The kernels insert at the same place, up to nodes that are equal, when there is no tie. -/
theorem insertItem_eq_iff (key : Key) (data : Option δ) (is : List (Item δ)) :
    insertItem .dvz key data is = insertItem .vud key data is ↔
      ¬ (Call.insert key data).Ties is := by
  cases is with
  | nil => simp [insertItem, Dvz.insertItem, Vud.insertItem, Call.Ties]
  | cons i is =>
      cases hlt : i.1.slt key with
      | false => simp [insertItem, Dvz.insertItem, Vud.insertItem, Call.Ties, BitVec.sle_eq_not_slt, hlt]
      | true =>
          have hplace := takeWhile_cons_dropWhile_eq_iff
            (fun (j : Item δ) (hj : j.1.slt key = true) => sle_of_slt hj) (key, data) is
          have hties : ¬ (Call.insert key data).Ties (i :: is) ↔
              ∀ j ∈ (is.dropWhile fun j => j.1.slt key).takeWhile fun j => j.1.sle key,
                j = (key, data) := by
            simp [Call.Ties, hlt]
          rw [hties, ← hplace]
          have hle : key.sle i.1 = false := by rw [BitVec.sle_eq_not_slt, hlt]; rfl
          simp [insertItem, Dvz.insertItem, Vud.insertItem, hlt, hle]

/-- Apart from ties the calls do the same to the contents and return the same. -/
theorem apply_eq_iff (c : Call δ) (is : List (Item δ)) :
    (c.apply .dvz is).1 = (c.apply .vud is).1 ↔ ¬ c.Ties is := by
  cases c with
  | prepend data => simp [Call.apply, Call.Ties]
  | insert key data => exact insertItem_eq_iff key data is
  | removeHead => cases is <;> simp [Call.apply, Call.Ties]

theorem apply_event (c : Call δ) (is : List (Item δ)) :
    (c.apply .dvz is).2 = (c.apply .vud is).2 := by
  cases c with
  | prepend data => rfl
  | insert key data => rfl
  | removeHead => cases is <;> rfl

section Runs

variable {x y : Shared δ}

/-- Run lemma. -/
theorem play_eq_of_reach
    (h : Reach (Completes .vud) (fun z c => ¬ z.list.Finds c.Ties) (created δ) y) :
    play .dvz (y.log.map Event.call) = play .vud (y.log.map Event.call) := by
  induction h with
  | refl => rfl
  | @tail z z' c hreach hok hc ih =>
      obtain ⟨cells, hrep, hplay⟩ := rep_of_completes hreach
      rw [hrep.contents.finds_iff, ← apply_eq_iff] at hok
      obtain ⟨l, -, hlog⟩ := hc
      rw [hlog, List.map_append, List.map_singleton, call_event, play_concat, play_concat, ih, hplay,
        hok, apply_event]

/-- Two lists with contents of their own have the same when these are equal. -/
theorem contents_iff {x y : Lst δ} {is js : List (Item δ)} (hx : x.Contents is)
    (hy : y.Contents js) : (∀ ks, x.Contents ks ↔ y.Contents ks) ↔ is = js := by
  constructor
  · intro h
    exact ((h is).1 hx).unique hy
  · rintro rfl ks
    exact ⟨fun h => (hx.unique h) ▸ hy, fun h => (hy.unique h) ▸ hx⟩

/-- The same calls on the two lists return the same, as long as there is no tie. After the first tie
the lists are different. -/
theorem lists_agree (hx : Reach (Completes .dvz) anyStep (created δ) x)
    (hy : Reach (Completes .vud) (fun z c => ¬ z.list.Finds c.Ties) (created δ) y)
    (hcalls : x.log.map Event.call = y.log.map Event.call) :
    x.log = y.log ∧
    ∀ c x' y', Completes .dvz x c x' → Completes .vud y c y' →
      ((∀ is, x'.list.Contents is ↔ y'.list.Contents is) ↔ ¬ y.list.Finds c.Ties) := by
  obtain ⟨cells, hrep, hplay⟩ := rep_of_completes hx
  obtain ⟨cells', hrep', hplay'⟩ := rep_of_completes hy
  rw [hcalls, play_eq_of_reach hy, hplay', Prod.mk.injEq] at hplay
  obtain ⟨hitems, hlog⟩ := hplay
  refine ⟨hlog.symm, fun c x' y' hcx hcy => ?_⟩
  obtain ⟨⟨es, hes, hitems₁⟩, -⟩ := hcx.rep hrep nofun fun _ hb => nomatch hb
  obtain ⟨⟨fs, hfs, hitems₂⟩, -⟩ := hcy.rep hrep' (fun _ => rfl) nofun
  rw [contents_iff hes.contents hfs.contents, hitems₁, hitems₂, ← hitems, apply_eq_iff,
    hrep'.contents.finds_iff]

/-- Equal keys at the head. -/
theorem lists_agree_head : ∃ x y : Shared Nat,
    x.log.map Event.call = [.insert 1 (some 10), .insert 1 (some 20), .removeHead] ∧
      y.log.map Event.call = [.insert 1 (some 10), .insert 1 (some 20), .removeHead] ∧
      x.log = y.log := by
  obtain ⟨x, hx, hlog⟩ := exists_reach (v := .dvz) (fun _ _ => False)
    [.insert 1 (some 10), .insert 1 (some 20), .removeHead] (by decide)
  obtain ⟨y, hy, hlog'⟩ := exists_reach (v := .vud) Call.Ties
    [.insert 1 (some 10), .insert 1 (some 20), .removeHead] (by decide)
  exact ⟨x, y, hlog, hlog',
    (lists_agree (hx.mono fun _ _ _ => trivial) hy (hlog.trans hlog'.symm)).1⟩

/-- Equal keys behind the first one: the calls of `linked_list_remove_head` return `10` and `20` in
one kernel, and `10` and `30` in the other. -/
theorem lists_differ_behind : ∃ x y : Shared Nat,
    Reach (Completes .dvz) anyStep (created Nat) x ∧
      Reach (Completes .vud) anyStep (created Nat) y ∧
      x.log = [.insert 1 (some 10), .insert 2 (some 20), .insert 2 (some 30),
        .removeHead (some 10) (some 1), .removeHead (some 20) (some 2)] ∧
      y.log = [.insert 1 (some 10), .insert 2 (some 20), .insert 2 (some 30),
        .removeHead (some 10) (some 1), .removeHead (some 30) (some 2)] := by
  obtain ⟨x, hx, hlog⟩ := exists_reach (v := .dvz) (fun _ _ => False)
    [.insert 1 (some 10), .insert 2 (some 20), .insert 2 (some 30), .removeHead, .removeHead]
    (by decide)
  obtain ⟨y, hy, hlog'⟩ := exists_reach (v := .vud) (fun _ _ => False)
    [.insert 1 (some 10), .insert 2 (some 20), .insert 2 (some 30), .removeHead, .removeHead]
    (by decide)
  refine ⟨x, y, hx.mono fun _ _ _ => trivial, hy.mono fun _ _ _ => trivial, ?_, ?_⟩
  · obtain ⟨cells, -, hplay⟩ := rep_of_completes hx
    rw [hlog] at hplay
    exact (congrArg Prod.snd hplay).symm
  · obtain ⟨cells, -, hplay⟩ := rep_of_completes hy
    rw [hlog'] at hplay
    exact (congrArg Prod.snd hplay).symm

end Runs

end Os161.LinkedList
