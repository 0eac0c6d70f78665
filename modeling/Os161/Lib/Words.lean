import Mathlib.Data.List.TakeWhile
import Mathlib.Tactic.Common

set_option autoImplicit false

/-!
# Words of a list

The maximal parts of a list without separators, each with the place where it starts. `wordsFrom` is
a scan from the left; `mem_wordsFrom_iff` says that it finds exactly the words, and
`wordsFrom_pairwise` that it finds them in order.
-/

namespace Os161.Lib.Words

section Words

variable {α : Type} (p : α → Bool)

/-- `w` is a word of `l` that starts at place `k`: not empty, without separators, and with a
separator or an end of the list on both sides. -/
structure IsWord (l : List α) (k : Nat) (w : List α) : Prop where
  ne_nil : w ≠ []
  free : ∀ c ∈ w, p c = false
  here : w <+: l.drop k
  before : ∀ c, 0 < k → l[k - 1]? = some c → p c = true
  behind : ∀ c, l[k + w.length]? = some c → p c = true

/-- The words of a list whose first element has the place `i`; `fresh` says that a word can start
there. -/
def wordsFrom (fresh : Bool) (i : Nat) : List α → List (Nat × List α)
  | [] => []
  | c :: l =>
      if p c then wordsFrom true (i + 1) l
      else if fresh then (i, c :: l.takeWhile fun d => !p d) :: wordsFrom false (i + 1) l
      else wordsFrom false (i + 1) l

variable {p} {c : α} {l w : List α} {i j k : Nat} {fresh : Bool}

theorem IsWord.cons_succ_iff :
    IsWord p (c :: l) (k + 1) w ↔ IsWord p l k w ∧ (k = 0 → p c = true) := by
  constructor
  · intro h
    refine ⟨⟨h.ne_nil, h.free, h.here, fun d hk hd => ?_, fun d hd => ?_⟩, fun hk => ?_⟩
    · obtain ⟨k, rfl⟩ : ∃ m, k = m + 1 := ⟨k - 1, by omega⟩
      exact h.before d (Nat.succ_pos _) hd
    · apply h.behind d
      rwa [Nat.add_right_comm, List.getElem?_cons_succ]
    · subst hk
      exact h.before c (Nat.succ_pos 0) rfl
  · rintro ⟨h, hc⟩
    refine ⟨h.ne_nil, h.free, h.here, fun d _ hd => ?_, fun d hd => ?_⟩
    · cases k with
      | zero => exact Option.some.inj hd ▸ hc rfl
      | succ k => exact h.before d (Nat.succ_pos k) hd
    · apply h.behind d
      rwa [Nat.add_right_comm, List.getElem?_cons_succ] at hd

/-- The word at the start of a list goes up to the first separator. -/
theorem IsWord.zero_iff : IsWord p l 0 w ↔ w ≠ [] ∧ w = l.takeWhile fun d => !p d := by
  constructor
  · intro h
    refine ⟨h.ne_nil, ?_⟩
    obtain ⟨post, hpost⟩ := h.here
    rw [List.drop_zero] at hpost
    have hfree : ∀ d ∈ w, (!p d) = true := fun d hd => by rw [h.free d hd]; rfl
    rw [← hpost, List.takeWhile_append_of_pos hfree]
    cases post with
    | nil => rw [List.takeWhile_nil, List.append_nil]
    | cons s post =>
        have hs : p s = true := by
          apply h.behind s
          rw [← hpost, Nat.zero_add, List.getElem?_append_right (Nat.le_refl _), Nat.sub_self]
          rfl
        rw [List.takeWhile_cons_of_neg (by rw [hs]; exact Bool.false_ne_true), List.append_nil]
  · rintro ⟨hne, rfl⟩
    refine ⟨hne, fun d hd => ?_, List.takeWhile_prefix _, fun d hk => absurd hk (by decide), ?_⟩
    · simpa using List.mem_takeWhile_imp hd
    · intro d hd
      rw [Nat.zero_add] at hd
      have hsplit : l = (l.takeWhile fun d => !p d) ++ l.dropWhile fun d => !p d :=
        List.takeWhile_append_dropWhile.symm
      have hnot := List.head?_dropWhile_not (fun d => !p d) l
      generalize (l.takeWhile fun d => !p d) = w at hsplit hd
      rw [hsplit, List.getElem?_append_right (Nat.le_refl _), Nat.sub_self,
        ← List.head?_eq_getElem?] at hd
      rw [hd] at hnot
      simpa using hnot

/-- The scan finds the words and nothing else. -/
theorem mem_wordsFrom_iff (l : List α) : ∀ fresh i, (j, w) ∈ wordsFrom p fresh i l ↔
    ∃ k, j = i + k ∧ IsWord p l k w ∧ (k = 0 → fresh = true) := by
  induction l with
  | nil =>
      intro fresh i
      constructor
      · intro h
        cases h
      · rintro ⟨k, -, h, -⟩
        exact absurd (List.prefix_nil.1 (List.drop_nil ▸ h.here)) h.ne_nil
  | cons c l ih =>
      intro fresh i
      -- a word that does not start here is a word of the rest
      have hrest : ∀ b : Bool, b = p c → ((j, w) ∈ wordsFrom p b (i + 1) l ↔
          ∃ k, j = i + (k + 1) ∧ IsWord p (c :: l) (k + 1) w) := by
        rintro b rfl
        rw [ih (p c) (i + 1)]
        constructor
        · rintro ⟨k, hj, hw, hk⟩
          exact ⟨k, by omega, IsWord.cons_succ_iff.2 ⟨hw, hk⟩⟩
        · rintro ⟨k, hj, hw⟩
          obtain ⟨hw, hk⟩ := IsWord.cons_succ_iff.1 hw
          exact ⟨k, by omega, hw, hk⟩
      have hsplit : (∃ k, j = i + k ∧ IsWord p (c :: l) k w ∧ (k = 0 → fresh = true)) ↔
          (j = i ∧ IsWord p (c :: l) 0 w ∧ fresh = true) ∨
            ∃ k, j = i + (k + 1) ∧ IsWord p (c :: l) (k + 1) w := by
        constructor
        · rintro ⟨k, hj, hw, hk⟩
          cases k with
          | zero => exact .inl ⟨hj, hw, hk rfl⟩
          | succ k => exact .inr ⟨k, hj, hw⟩
        · rintro (⟨hj, hw, hf⟩ | ⟨k, hj, hw⟩)
          · exact ⟨0, hj, hw, fun _ => hf⟩
          · exact ⟨k + 1, hj, hw, fun h => absurd h (Nat.succ_ne_zero k)⟩
      rw [hsplit, wordsFrom]
      cases hc : p c with
      | true =>
          rw [if_pos rfl, hrest true hc.symm]
          refine ⟨Or.inr, fun h => h.resolve_left ?_⟩
          rintro ⟨-, hw, -⟩
          obtain ⟨hne, heq⟩ := IsWord.zero_iff.1 hw
          rw [List.takeWhile_cons_of_neg (by rw [hc]; exact Bool.false_ne_true)] at heq
          exact hne heq
      | false =>
          have htake : (c :: l).takeWhile (fun d => !p d) = c :: l.takeWhile fun d => !p d :=
            List.takeWhile_cons_of_pos (by rw [hc]; rfl)
          cases fresh with
          | false =>
              rw [if_neg Bool.false_ne_true, if_neg Bool.false_ne_true, hrest false hc.symm]
              exact ⟨Or.inr, fun h => h.resolve_left fun h => nomatch h.2.2⟩
          | true =>
              rw [if_neg Bool.false_ne_true, if_pos rfl, List.mem_cons, hrest false hc.symm,
                IsWord.zero_iff, htake, Prod.mk.injEq]
              constructor
              · rintro (⟨hj, hw⟩ | h)
                · exact .inl ⟨hj, ⟨hw ▸ List.cons_ne_nil _ _, hw⟩, rfl⟩
                · exact .inr h
              · rintro (⟨hj, ⟨-, hw⟩, -⟩ | h)
                · exact .inl ⟨hj, hw⟩
                · exact .inr h

theorem le_of_mem_wordsFrom (h : (j, w) ∈ wordsFrom p fresh i l) : i ≤ j := by
  obtain ⟨k, rfl, -, -⟩ := (mem_wordsFrom_iff l fresh i).1 h
  exact Nat.le_add_right i k

/-- The words come in the order of their places. -/
theorem wordsFrom_pairwise (l : List α) :
    ∀ fresh i, (wordsFrom p fresh i l).Pairwise fun a b => a.1 < b.1 := by
  induction l with
  | nil => exact fun _ _ => List.Pairwise.nil
  | cons c l ih =>
      intro fresh i
      rw [wordsFrom]
      split
      · exact ih true (i + 1)
      · split
        · exact List.Pairwise.cons (fun a ha => le_of_mem_wordsFrom ha) (ih false (i + 1))
        · exact ih false (i + 1)

/-- There are no more words than elements. -/
theorem length_wordsFrom_le (l : List α) :
    ∀ fresh i, (wordsFrom p fresh i l).length ≤ l.length := by
  induction l with
  | nil => exact fun _ _ => Nat.le_refl 0
  | cons c l ih =>
      intro fresh i
      rw [wordsFrom, List.length_cons]
      split
      · exact Nat.le_succ_of_le (ih true (i + 1))
      · split
        · exact Nat.succ_le_succ (ih false (i + 1))
        · exact Nat.le_succ_of_le (ih false (i + 1))

/-- The words do not depend on where the places are counted from. -/
theorem map_snd_wordsFrom (l : List α) :
    ∀ fresh i j, (wordsFrom p fresh i l).map Prod.snd = (wordsFrom p fresh j l).map Prod.snd := by
  induction l with
  | nil => exact fun _ _ _ => rfl
  | cons c l ih =>
      intro fresh i j
      rw [wordsFrom, wordsFrom]
      split
      · exact ih true (i + 1) (j + 1)
      · split
        · rw [List.map_cons, List.map_cons, ih false (i + 1) (j + 1)]
        · exact ih false (i + 1) (j + 1)

/-- A word lies inside of its list. -/
theorem IsWord.le_length (h : IsWord p l k w) : k + w.length ≤ l.length := by
  have hlen := h.here.length_le
  have hpos := List.length_pos_iff.2 h.ne_nil
  rw [List.length_drop] at hlen
  omega

/-! ## How the scan goes -/

/-- Separators are passed over. -/
theorem wordsFrom_seps (g : List α) (hg : ∀ c ∈ g, p c = true) :
    ∀ i, wordsFrom p true i (g ++ l) = wordsFrom p true (i + g.length) l := by
  induction g with
  | nil => exact fun i => rfl
  | cons c g ih =>
      intro i
      rw [List.cons_append, wordsFrom, if_pos (hg c List.mem_cons_self),
        ih (fun d hd => hg d (List.mem_cons_of_mem c hd)), List.length_cons]
      congr 1
      omega

/-- So is the inside of a word. -/
theorem wordsFrom_inside (w : List α) (hw : ∀ c ∈ w, p c = false) :
    ∀ i, wordsFrom p false i (w ++ l) = wordsFrom p false (i + w.length) l := by
  induction w with
  | nil => exact fun i => rfl
  | cons c w ih =>
      intro i
      have hc : ¬ p c = true := by rw [hw c List.mem_cons_self]; exact Bool.false_ne_true
      rw [List.cons_append, wordsFrom, if_neg hc, if_neg Bool.false_ne_true,
        ih (fun d hd => hw d (List.mem_cons_of_mem c hd)), List.length_cons]
      congr 1
      omega

/-- A word up to the end of the list. -/
theorem wordsFrom_last (hne : w ≠ []) (hw : ∀ c ∈ w, p c = false) (i : Nat) :
    wordsFrom p true i w = [(i, w)] := by
  cases w with
  | nil => exact absurd rfl hne
  | cons c w =>
      have hc : ¬ p c = true := by rw [hw c List.mem_cons_self]; exact Bool.false_ne_true
      have hrest := wordsFrom_inside (l := []) w
        (fun d hd => hw d (List.mem_cons_of_mem c hd)) (i + 1)
      rw [List.append_nil] at hrest
      have htake : (w.takeWhile fun d => !p d) = w :=
        List.takeWhile_eq_self_iff.2 fun d hd => by rw [hw d (List.mem_cons_of_mem c hd)]; rfl
      rw [wordsFrom, if_neg hc, if_pos rfl, hrest, htake]
      rfl

/-- A word up to a separator. -/
theorem wordsFrom_word {s : α} (hne : w ≠ []) (hw : ∀ c ∈ w, p c = false) (hs : p s = true)
    (i : Nat) : wordsFrom p true i (w ++ s :: l) =
      (i, w) :: wordsFrom p true (i + w.length + 1) l := by
  cases w with
  | nil => exact absurd rfl hne
  | cons c w =>
      have hc : ¬ p c = true := by rw [hw c List.mem_cons_self]; exact Bool.false_ne_true
      have htail : ∀ d ∈ w, p d = false := fun d hd => hw d (List.mem_cons_of_mem c hd)
      have htake : ((w ++ s :: l).takeWhile fun d => !p d) = w := by
        rw [List.takeWhile_append_of_pos fun d hd => by rw [htail d hd]; rfl,
          List.takeWhile_cons_of_neg (by rw [hs]; exact Bool.false_ne_true), List.append_nil]
      rw [List.cons_append, wordsFrom, if_neg hc, if_pos rfl, htake, wordsFrom_inside w htail,
        wordsFrom, if_pos hs, List.length_cons]
      congr 2
      omega

/-- What a scan meets first. -/
inductive Scan (p : α → Bool) : List α → Prop
  /-- Only separators are left. -/
  | seps (g : List α) (hg : ∀ c ∈ g, p c = true) : Scan p g
  /-- The last word. -/
  | last (g w : List α) (hg : ∀ c ∈ g, p c = true) (hne : w ≠ []) (hw : ∀ c ∈ w, p c = false) :
      Scan p (g ++ w)
  /-- A word and the separator that ends it. -/
  | word (g w : List α) (s : α) (l : List α) (hg : ∀ c ∈ g, p c = true) (hne : w ≠ [])
      (hw : ∀ c ∈ w, p c = false) (hs : p s = true) : Scan p (g ++ (w ++ s :: l))

theorem scan (p : α → Bool) (l : List α) : Scan p l := by
  have hg : ∀ c ∈ l.takeWhile p, p c = true := fun c hc => List.mem_takeWhile_imp hc
  have hsplit : l.takeWhile p ++ l.dropWhile p = l := List.takeWhile_append_dropWhile
  generalize l.takeWhile p = g at hg hsplit
  have hhead := List.head?_dropWhile_not p l
  generalize l.dropWhile p = r at hsplit hhead
  subst hsplit
  cases r with
  | nil => exact (List.append_nil g).symm ▸ Scan.seps g hg
  | cons c r =>
      have hw : ∀ d ∈ (c :: r).takeWhile (fun d => !p d), p d = false := fun d hd => by
        simpa using List.mem_takeWhile_imp hd
      have hne : (c :: r).takeWhile (fun d => !p d) ≠ [] := by
        rw [List.takeWhile_cons_of_pos (by simpa using hhead)]
        exact List.cons_ne_nil _ _
      have hsplit : (c :: r).takeWhile (fun d => !p d) ++ (c :: r).dropWhile (fun d => !p d) =
          c :: r := List.takeWhile_append_dropWhile
      generalize (c :: r).takeWhile (fun d => !p d) = w at hw hne hsplit
      have hsep := List.head?_dropWhile_not (fun d => !p d) (c :: r)
      generalize (c :: r).dropWhile (fun d => !p d) = post at hsplit hsep
      rw [← hsplit]
      cases post with
      | nil => exact (List.append_nil w).symm ▸ Scan.last g w hg hne hw
      | cons s l => exact Scan.word g w s l hg hne hw (by simpa using hsep)

end Words

end Os161.Lib.Words
