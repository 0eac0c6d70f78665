import Os161.Lib.Shuffles

set_option autoImplicit false

/-!
# Sorting

`qsort` of `userland/lib/libc/stdlib/qsort.c`: the pivot stays where it is in the array and its
index follows it through the exchanges. For a comparison function that orders the elements the
array is sorted, and the assertion about the two parts holds.
-/

namespace Os161.Libc.Qsort

open Os161.Lib.Shuffles

inductive Abort where
  /-- `assert(tail > 0 && tail < num)`. -/
  | badParts
  deriving DecidableEq, Repr

section Model

variable {α : Type} (f : α → α → Int)

/-- `COMPARE`. -/
def compare (data : Nat → α) (base aa bb : Nat) : Int :=
  if aa = bb then 0 else f (data (base + aa)) (data (base + bb))

/-- `EXCHANGE`. -/
def exchange (data : Nat → α) (base aa bb : Nat) : Nat → α :=
  fun k => if k = base + aa then data (base + bb) else
    if k = base + bb then data (base + aa) else data k

/-- The array and the variables of the loop of step 2. -/
structure Parts (α : Type) where
  data : Nat → α
  pivot : Nat
  head : Nat
  tail : Nat

/-- The index of the pivot after the exchange. -/
def follow (pivot head tail : Nat) : Nat :=
  if pivot = head then tail else if pivot = tail then head else pivot

/-- The loop of step 2. -/
def shift (base : Nat) (data : Nat → α) (pivot head tail : Nat) : Parts α :=
  if head < tail then
    if compare f data base head pivot ≤ 0 then shift base data pivot (head + 1) tail
    else if 0 < compare f data base tail pivot then shift base data pivot head (tail - 1)
    else
      shift base (exchange data base head tail) (follow pivot head tail) (head + 1) (tail - 1)
  else { data, pivot, head, tail }
termination_by tail - head

/-- Step 3: where the back portion starts. -/
def Parts.back (base : Nat) (p : Parts α) : Nat :=
  if p.tail < p.head ∨ compare f p.data base p.head p.pivot ≤ 0 then p.tail + 1 else p.tail

/-- Step 4: the greatest element at the end. -/
def Parts.last (base num : Nat) (p : Parts α) : Nat → α :=
  if p.pivot < num - 1 ∧ 0 < compare f p.data base p.pivot (num - 1) then
    exchange p.data base p.pivot (num - 1)
  else p.data

/-- Step 4: the loop over the elements that are equal to the last one. -/
def lopOff (data : Nat → α) (base : Nat) : Nat → Nat
  | 0 => 0
  | tail + 1 => if compare f data base tail (tail + 1) = 0 then lopOff data base tail else tail + 1

theorem lopOff_le (data : Nat → α) (base tail : Nat) : lopOff f data base tail ≤ tail := by
  induction tail with
  | zero => exact Nat.le_refl 0
  | succ tail ih =>
      rw [lopOff]
      split
      · exact Nat.le_succ_of_le ih
      · exact Nat.le_refl _

/-- `qsort(data + base * size, num, size, f)`. -/
def qsort (data : Nat → α) (base num : Nat) : Except Abort (Nat → α) :=
  if _hnum : num ≤ 1 then .ok data
  else if num = 2 ∧ 0 < compare f data base 0 1 then .ok (exchange data base 0 1)
  else
    let p := shift f base data (num / 2) 0 (num - 1)
    let tail := p.back f base
    if tail = num then
      let data := p.last f base num
      let tail := lopOff f data base (num - 1)
      if 0 < tail then qsort data base tail else .ok data
    else if _hparts : 0 < tail ∧ tail < num then
      match qsort p.data base tail with
      | .error e => .error e
      | .ok data => qsort data (base + tail) (num - tail)
    else .error .badParts
termination_by num
decreasing_by
  · exact Nat.lt_of_le_of_lt (lopOff_le ..) (by omega)
  · exact _hparts.2
  · exact Nat.sub_lt (by omega) _hparts.1

end Model

/-- What `qsort` needs to know of the comparison function. -/
structure Comparison {α : Type} (f : α → α → Int) : Prop where
  refl : ∀ x, f x x ≤ 0
  trans : ∀ x y z, f x y ≤ 0 → f y z ≤ 0 → f x z ≤ 0
  flip : ∀ x y, 0 ≤ f x y → f y x ≤ 0

section Parts

variable {α : Type} {f : α → α → Int} {data : Nat → α} {base num aa bb : Nat} {v : α}

theorem compare_nonpos_iff (hf : Comparison f) :
    compare f data base aa bb ≤ 0 ↔ f (data (base + aa)) (data (base + bb)) ≤ 0 := by
  rw [compare]
  split
  case isTrue h =>
    subst h
    exact iff_of_true (Int.le_refl 0) (hf.refl _)
  case isFalse h => exact Iff.rfl

theorem compare_pos_iff (hf : Comparison f) :
    0 < compare f data base aa bb ↔ 0 < f (data (base + aa)) (data (base + bb)) := by
  rw [← Int.not_le, ← Int.not_le, compare_nonpos_iff hf]

theorem exchange_eq (data : Nat → α) (base aa bb : Nat) :
    exchange data base aa bb = data ∘ Equiv.swap (base + aa) (base + bb) := by
  funext k
  rw [exchange, Function.comp_apply, Equiv.swap_apply_def]
  split
  · rfl
  · split <;> rfl

theorem exchange_left : exchange data base aa bb (base + aa) = data (base + bb) := if_pos rfl

theorem exchange_right : exchange data base aa bb (base + bb) = data (base + aa) := by
  rw [exchange_eq, Function.comp_apply, Equiv.swap_apply_right]

theorem exchange_of_ne {k : Nat} (ha : k ≠ aa) (hb : k ≠ bb) :
    exchange data base aa bb (base + k) = data (base + k) := by
  rw [exchange, if_neg (by omega), if_neg (by omega)]

theorem shuffled_exchange (ha : aa < num) (hb : bb < num) :
    Shuffled base (base + num) data (exchange data base aa bb) := by
  rw [exchange_eq]
  exact .swap (by omega) (by omega) (by omega) (by omega) data

/-- The invariant of the loop of step 2, with the value `v` of the pivot. -/
structure Splits (f : α → α → Int) (base num : Nat) (v : α) (p : Parts α) : Prop where
  pivot_lt : p.pivot < num
  pivot_eq : p.data (base + p.pivot) = v
  tail_lt : p.tail < num
  front : ∀ k, k < p.head → f (p.data (base + k)) v ≤ 0
  behind : ∀ k, p.tail < k → k < num → 0 < f (p.data (base + k)) v

theorem shift_splits (hf : Comparison f) (data : Nat → α) (pivot head tail : Nat)
    (h : Splits f base num v { data, pivot, head, tail }) :
    Splits f base num v (shift f base data pivot head tail) ∧
      (shift f base data pivot head tail).tail ≤ (shift f base data pivot head tail).head ∧
      Shuffled base (base + num) data (shift f base data pivot head tail).data := by
  obtain ⟨hpivot, hv, htail, hfront, hbehind⟩ := h
  dsimp only at hpivot hv htail hfront hbehind
  fun_induction shift f base data pivot head tail with
  | case1 data pivot head tail hlt hle ih =>
      refine ih hpivot hv htail (fun k hk => ?_) hbehind
      rcases Nat.lt_succ_iff_lt_or_eq.1 hk with hk | rfl
      · exact hfront k hk
      · rw [compare_nonpos_iff hf, hv] at hle
        exact hle
  | case2 data pivot head tail hlt hle hgt ih =>
      refine ih hpivot hv (by omega) hfront fun k hk hnum => ?_
      rcases Nat.eq_or_lt_of_le (show tail ≤ k by omega) with rfl | hk
      · rw [compare_pos_iff hf, hv] at hgt
        exact hgt
      · exact hbehind k hk hnum
  | case3 data pivot head tail hlt hle hgt ih =>
      rw [compare_nonpos_iff hf, hv, Int.not_le] at hle
      rw [compare_pos_iff hf, hv, Int.not_lt] at hgt
      -- the element at the head is greater than the pivot
      have hne : pivot ≠ head := by
        rintro rfl
        rw [hv] at hle
        exact absurd (hf.refl v) (Int.not_le.2 hle)
      have hexchange : Shuffled base (base + num) data (exchange data base head tail) :=
        shuffled_exchange (by omega) htail
      have hpivot' : follow pivot head tail < num ∧
          exchange data base head tail (base + follow pivot head tail) = v := by
        rw [follow, if_neg hne]
        by_cases ht : pivot = tail
        · rw [if_pos ht, exchange_left, ← ht]
          exact ⟨by omega, hv⟩
        · rw [if_neg ht, exchange_of_ne hne ht]
          exact ⟨hpivot, hv⟩
      have hrest := ih hpivot'.1 hpivot'.2 (by omega) (fun k hk => ?_)
        fun k hk hnum => ?_
      · exact ⟨hrest.1, hrest.2.1, hexchange.trans hrest.2.2⟩
      · rcases Nat.lt_succ_iff_lt_or_eq.1 hk with hk | rfl
        · rw [exchange_of_ne (Nat.ne_of_lt hk) (by omega)]
          exact hfront k hk
        · rw [exchange_left]
          exact hgt
      · rcases Nat.eq_or_lt_of_le (show tail ≤ k by omega) with rfl | hk
        · rw [exchange_right]
          exact hle
        · rw [exchange_of_ne (by omega) (by omega)]
          exact hbehind k hk hnum
  | case4 data pivot head tail hge =>
      exact ⟨⟨hpivot, hv, htail, hfront, hbehind⟩, Nat.not_lt.1 hge, .refl _ _ _⟩

/-- The two portions of the array. -/
structure Portions (f : α → α → Int) (base num : Nat) (v : α) (d : Nat → α) (tail : Nat) :
    Prop where
  pos : 0 < tail
  le : tail ≤ num
  front : ∀ k, base ≤ k → k < base + tail → f (d k) v ≤ 0
  back : ∀ k, base + tail ≤ k → k < base + num → 0 < f (d k) v

/-- Where the loop ends the two portions meet. -/
theorem Splits.portions (hf : Comparison f) {p : Parts α} (h : Splits f base num v p)
    (hmeet : p.tail ≤ p.head) : Portions f base num v p.data (p.back f base) := by
  have hback : (∀ k, k < p.back f base → f (p.data (base + k)) v ≤ 0) ∧
      (∀ k, p.back f base ≤ k → k < num → 0 < f (p.data (base + k)) v) ∧
      p.back f base ≤ num := by
    rw [Parts.back]
    split
    case isTrue hcond =>
      refine ⟨fun k hk => ?_, fun k hk hnum => h.behind k hk hnum, h.tail_lt⟩
      rcases Nat.lt_or_ge k p.head with hk' | hk'
      · exact h.front k hk'
      · -- the two indices have met at an element of the front portion
        have heq : k = p.head := by omega
        rcases hcond with hcross | hle
        · omega
        · rw [compare_nonpos_iff hf, h.pivot_eq, ← heq] at hle
          exact hle
    case isFalse hcond =>
      obtain ⟨hcross, hgt⟩ := not_or.1 hcond
      have heq : p.tail = p.head := by omega
      refine ⟨fun k hk => h.front k (by omega), fun k hk hnum => ?_, Nat.le_of_lt h.tail_lt⟩
      rcases Nat.eq_or_lt_of_le hk with rfl | hk
      · rw [compare_nonpos_iff hf, h.pivot_eq, Int.not_le, ← heq] at hgt
        exact hgt
      · exact h.behind k hk hnum
  obtain ⟨hfront, hbehind, hle⟩ := hback
  refine ⟨?_, hle, fun k hk hk' => ?_, fun k hk hk' => ?_⟩
  · -- the pivot itself is in the front portion
    by_contra hzero
    have hpivot := hbehind p.pivot (by omega) h.pivot_lt
    rw [h.pivot_eq] at hpivot
    exact absurd (hf.refl v) (Int.not_le.2 hpivot)
  · have hk₀ := hfront (k - base) (by omega)
    rwa [Nat.add_sub_cancel' hk] at hk₀
  · have hk₀ := hbehind (k - base) (by omega) (by omega)
    rwa [Nat.add_sub_cancel' (by omega)] at hk₀

/-- Without a back portion, the last element becomes a greatest one. -/
theorem Splits.last (hf : Comparison f) {p : Parts α} (h : Splits f base num v p)
    (hle : ∀ k, base ≤ k → k < base + num → f (p.data k) v ≤ 0) :
    Shuffled base (base + num) p.data (p.last f base num) ∧
      ∀ k, base ≤ k → k < base + num →
        f (p.last f base num k) (p.last f base num (base + (num - 1))) ≤ 0 := by
  have hpivot := h.pivot_lt
  rw [Parts.last]
  split
  case isTrue hcond =>
    have hshuffle : Shuffled base (base + num) p.data (exchange p.data base p.pivot (num - 1)) :=
      shuffled_exchange hpivot (by omega)
    refine ⟨hshuffle, ?_⟩
    rw [exchange_right, h.pivot_eq]
    exact hshuffle.all (P := fun x => f x v ≤ 0) hle
  case isFalse hcond =>
    refine ⟨.refl _ _ _, fun k hk hk' => hf.trans _ v _ (hle k hk hk') ?_⟩
    rw [← h.pivot_eq]
    rcases Nat.eq_or_lt_of_le (show p.pivot ≤ num - 1 by omega) with heq | hlt
    · rw [heq]
      exact hf.refl _
    · exact Int.not_lt.1 fun hgt => hcond ⟨hlt, (compare_pos_iff hf).2 hgt⟩

/-- The elements that are lopped off are as great as the last one. -/
theorem lopOff_ge (hf : Comparison f) (tail : Nat) :
    ∀ k, lopOff f data base tail ≤ k → k ≤ tail → f (data (base + tail)) (data (base + k)) ≤ 0 := by
  induction tail with
  | zero =>
      intro k _ hk
      rw [Nat.le_zero.1 hk]
      exact hf.refl _
  | succ tail ih =>
      intro k hk hk'
      rcases Nat.eq_or_lt_of_le hk' with rfl | hlt
      · exact hf.refl _
      · rw [lopOff] at hk
        split at hk
        case isTrue heq =>
          rw [compare, if_neg (Nat.ne_of_lt (Nat.lt_succ_self tail))] at heq
          exact hf.trans _ _ _ (hf.flip _ _ (Int.le_of_eq heq.symm))
            (ih k hk (Nat.le_of_lt_succ hlt))
        case isFalse hne => omega

end Parts

/-- The array is sorted by `f`. -/
abbrev Sorted {α : Type} (f : α → α → Int) (lo hi : Nat) (d : Nat → α) : Prop :=
  SortedOn (fun x y => f x y ≤ 0) lo hi d

section Steps

variable {α : Type} {f : α → α → Int} {data : Nat → α} {base num tail : Nat} {v : α}

/-- Step 2 starts at the two ends with the middle of the array as the pivot. -/
theorem splits_start (data : Nat → α) (base : Nat) (hnum : 1 < num) :
    Splits f base num (data (base + num / 2)) { data, pivot := num / 2, head := 0, tail := num - 1 } where
  pivot_lt := by
    dsimp only
    omega
  pivot_eq := rfl
  tail_lt := by
    dsimp only
    omega
  front := fun k hk => absurd hk (Nat.not_lt_zero k)
  behind := fun k hk hnum => by
    dsimp only at hk
    omega

theorem sorted_two (hf : Comparison f) (hgt : 0 < f (data base) (data (base + 1))) :
    Sorted f base (base + 2) (exchange data base 0 1) := by
  intro i j hi hij hj
  have hi₀ : i = base + 0 := by omega
  have hj₁ : j = base + 1 := by omega
  rw [hi₀, hj₁, exchange_left, exchange_right]
  exact hf.flip _ _ (Int.le_of_lt hgt)

/-- The elements before the lopped off ones are sorted, and the last element is a greatest one. -/
theorem sorted_lopOff (hf : Comparison f) {d : Nat → α}
    (hmax : ∀ k, base ≤ k → k < base + num → f (data k) (data (base + (num - 1))) ≤ 0)
    (hshuffle : Shuffled base (base + lopOff f data base (num - 1)) data d)
    (hsorted : Sorted f base (base + lopOff f data base (num - 1)) d) :
    Sorted f base (base + num) d := by
  have hle := lopOff_le f data base (num - 1)
  have hrest : ∀ k, base + lopOff f data base (num - 1) ≤ k → d k = data k := fun k hk =>
    hshuffle.apply_outside (.inr hk)
  -- every element that has been lopped off is as great as the last one
  have hge : ∀ k, base + lopOff f data base (num - 1) ≤ k → k < base + num →
      f (data (base + (num - 1))) (d k) ≤ 0 := fun k hk hk' => by
    rw [hrest k hk, ← Nat.add_sub_cancel' (show base ≤ k by omega)]
    exact lopOff_ge hf (num - 1) (k - base) (by omega) (by omega)
  refine SortedOn.append hf.trans hsorted (fun i j hi hij hj => ?_) (hshuffle.all
    (P := fun x => f x (data (base + (num - 1))) ≤ 0) fun k hk hk' => hmax k hk ?_) hge
  · refine hf.trans _ _ _ ?_ (hge j (by omega) hj)
    rw [hrest i hi]
    exact hmax i (by omega) (by omega)
  · omega

/-- Both portions are sorted one after the other. -/
theorem Portions.sorted (hf : Comparison f) {d d₁ d₂ : Nat → α} (hp : Portions f base num v d tail)
    (h₁ : Shuffled base (base + tail) d d₁) (hs₁ : Sorted f base (base + tail) d₁)
    (h₂ : Shuffled (base + tail) (base + num) d₁ d₂) (hs₂ : Sorted f (base + tail) (base + num) d₂) :
    Sorted f base (base + num) d₂ := by
  have hfront : ∀ k, base ≤ k → k < base + tail → d₂ k = d₁ k := fun k _ hk =>
    h₂.apply_outside (.inl hk)
  have hback : ∀ k, base + tail ≤ k → k < base + num → 0 < f (d₁ k) v := fun k hk hk' => by
    rw [h₁.apply_outside (.inr hk)]
    exact hp.back k hk hk'
  refine SortedOn.append (v := v) hf.trans (hs₁.congr hfront) hs₂ (fun k hk hk' => ?_)
    fun k hk hk' => ?_
  · rw [hfront k hk hk']
    exact h₁.all (P := fun x => f x v ≤ 0) hp.front k hk hk'
  · exact hf.flip _ _ (Int.le_of_lt (h₂.all (P := fun x => 0 < f x v) hback k hk hk'))

end Steps

/-- `qsort` sorts, by any comparison function that orders the elements. -/
theorem qsort_sorts {α : Type} {f : α → α → Int} (hf : Comparison f) (data : Nat → α)
    (base num : Nat) :
    ∃ d, qsort f data base num = .ok d ∧ Shuffled base (base + num) data d ∧
      Sorted f base (base + num) d := by
  induction num using Nat.strongRecOn generalizing data base with
  | _ num ih =>
      rw [qsort]
      split
      case isTrue hnum => exact ⟨data, rfl, .refl _ _ _, sortedOn_of_le (by omega)⟩
      case isFalse hnum =>
        split
        case isTrue htwo =>
          obtain ⟨rfl, hgt⟩ := htwo
          rw [compare_pos_iff hf] at hgt
          exact ⟨_, rfl, shuffled_exchange (by decide) (by decide), sorted_two hf hgt⟩
        case isFalse htwo =>
          obtain ⟨hsplits, hmeet, hshift⟩ :=
            shift_splits hf data (num / 2) 0 (num - 1) (splits_start data base (by omega))
          have hportions := hsplits.portions hf hmeet
          dsimp only
          generalize shift f base data (num / 2) 0 (num - 1) = p at hsplits hshift hportions
          split
          case isTrue hall =>
            -- one portion only
            obtain ⟨hlast, hmax⟩ := hsplits.last hf fun k hk hk' =>
              hportions.front k hk (by rw [hall]; exact hk')
            have hlop := lopOff_le f (p.last f base num) base (num - 1)
            split
            case isTrue hpos =>
              obtain ⟨d, hrun, hshuffle, hsorted⟩ :=
                ih (lopOff f (p.last f base num) base (num - 1)) (by omega) (p.last f base num) base
              exact ⟨d, hrun, (hshift.trans hlast).trans (hshuffle.mono (Nat.le_refl _) (by omega)),
                sorted_lopOff hf hmax hshuffle hsorted⟩
            case isFalse hzero =>
              exact ⟨_, rfl, hshift.trans hlast, sorted_lopOff hf hmax (.refl _ _ _)
                (sortedOn_of_le (by omega))⟩
          case isFalse hsome =>
            have hle := hportions.le
            have hpos := hportions.pos
            rw [dif_pos ⟨hpos, by omega⟩]
            obtain ⟨d₁, hrun₁, hshuffle₁, hsorted₁⟩ := ih (p.back f base) (by omega) p.data base
            obtain ⟨d₂, hrun₂, hshuffle₂, hsorted₂⟩ :=
              ih (num - p.back f base) (by omega) d₁ (base + p.back f base)
            have hend : base + p.back f base + (num - p.back f base) = base + num := by omega
            rw [hend] at hshuffle₂ hsorted₂
            rw [hrun₁]
            exact ⟨d₂, hrun₂, (hshift.trans (hshuffle₁.mono (Nat.le_refl _) (by omega))).trans
              (hshuffle₂.mono (by omega) (Nat.le_refl _)),
              hportions.sorted hf hshuffle₁ hsorted₁ hshuffle₂ hsorted₂⟩

end Os161.Libc.Qsort
