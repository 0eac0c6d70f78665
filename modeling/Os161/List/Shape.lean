import Mathlib.Data.List.Nodup
import Os161.List.LinkedList

set_option autoImplicit false

/-!
# Lists in memory

`Rep back x cells`: the nodes of the list `x` are `cells`, in the order of the `next` pointers; with
`back` the `prev` pointers lead back the same way. A node is linked in between two halves of the
list by at most two stores in other nodes (`Rep.link`), and the first one is taken out in the same
way (`Rep.unlink`).
-/

namespace Os161.LinkedList

variable {δ : Type}

/-- A node in a list. -/
structure Cell (δ : Type) where
  addr : Addr
  key : Key
  data : Option δ
  deriving DecidableEq, Repr

/-- The address of the first node. -/
def headAddr (cells : List (Cell δ)) : Option Addr := cells.head?.map Cell.addr

/-- The address of the last node. -/
def lastAddr (cells : List (Cell δ)) : Option Addr := cells.getLast?.map Cell.addr

@[simp] theorem headAddr_nil : headAddr ([] : List (Cell δ)) = none := rfl

@[simp] theorem headAddr_cons (c : Cell δ) (cs : List (Cell δ)) :
    headAddr (c :: cs) = some c.addr := rfl

@[simp] theorem lastAddr_nil : lastAddr ([] : List (Cell δ)) = none := rfl

@[simp] theorem lastAddr_append_cons (cs : List (Cell δ)) (c : Cell δ) (ds : List (Cell δ)) :
    lastAddr (cs ++ c :: ds) = lastAddr (c :: ds) := by
  simp only [lastAddr, List.getLast?_append_cons]

@[simp] theorem lastAddr_singleton (c : Cell δ) : lastAddr [c] = some c.addr := rfl

@[simp] theorem lastAddr_cons_cons (c d : Cell δ) (ds : List (Cell δ)) :
    lastAddr (c :: d :: ds) = lastAddr (d :: ds) := by
  simp [lastAddr, List.getLast?_cons_cons]

theorem mem_of_headAddr {cells : List (Cell δ)} {a : Addr} (h : headAddr cells = some a) :
    a ∈ cells.map Cell.addr := by
  cases cells with
  | nil => cases h
  | cons c cs =>
      obtain rfl : c.addr = a := Option.some.inj h
      simp

theorem mem_of_lastAddr {cells : List (Cell δ)} {a : Addr} (h : lastAddr cells = some a) :
    a ∈ cells.map Cell.addr := by
  unfold lastAddr at h
  obtain ⟨c, hc, rfl⟩ := Option.map_eq_some_iff.1 h
  exact List.mem_map_of_mem (List.mem_of_getLast? hc)

/-- The nodes of the list `x` are `cells`. -/
structure Rep (back : Bool) (x : Lst δ) (cells : List (Cell δ)) : Prop where
  first : x.first = headAddr cells
  last : x.last = lastAddr cells
  node : ∀ cs c ds, cells = cs ++ c :: ds →
    ∃ p, x.mem c.addr = some { prev := p, next := headAddr ds, key := c.key, data := c.data } ∧
      (back = true → p = lastAddr cs)
  nodup : (cells.map Cell.addr).Nodup
  only : ∀ a, a ∉ cells.map Cell.addr → x.mem a = none
  length : x.length = cells.length

theorem rep_create (back : Bool) : Rep back (linkedListCreate : Lst δ) [] where
  first := rfl
  last := rfl
  node cs c ds h := by simp at h
  nodup := List.nodup_nil
  only _ _ := rfl
  length := rfl

theorem Rep.weaken {back : Bool} {x : Lst δ} {cells : List (Cell δ)} (h : Rep back x cells) :
    Rep false x cells where
  first := h.first
  last := h.last
  node cs c ds e := by
    obtain ⟨p, hp, -⟩ := h.node cs c ds e
    exact ⟨p, hp, nofun⟩
  nodup := h.nodup
  only := h.only
  length := h.length

/-- A free address is not in the list. -/
theorem Rep.fresh {back : Bool} {x : Lst δ} {cells : List (Cell δ)} (h : Rep back x cells) {a : Addr}
    (ha : x.mem a = none) : a ∉ cells.map Cell.addr := by
  intro hmem
  obtain ⟨c, hc, rfl⟩ := List.mem_map.1 hmem
  obtain ⟨cs, ds, e⟩ := List.append_of_mem hc
  obtain ⟨p, hp, -⟩ := h.node cs c ds e
  rw [hp] at ha
  cases ha

/-- There is always a free address. -/
theorem Rep.exists_fresh {back : Bool} {x : Lst δ} {cells : List (Cell δ)} (h : Rep back x cells) :
    ∃ a, x.mem a = none := by
  obtain ⟨a, ha⟩ := Infinite.exists_notMem_finset (cells.map Cell.addr).toFinset
  exact ⟨a, h.only a (by simpa using ha)⟩

section Splits

variable {cs ds cs' ds' : List (Cell δ)} {c c' : Cell δ}

/-- A node of a list into which `c` has been put: it is `c`, or before it, or behind it. -/
theorem split_cases (h : cs ++ c :: ds = cs' ++ c' :: ds') :
    (cs' = cs ∧ c' = c ∧ ds' = ds) ∨
    (∃ es, cs = cs' ++ c' :: es ∧ ds' = es ++ c :: ds) ∨
    ∃ es, ds = es ++ c' :: ds' ∧ cs' = cs ++ c :: es := by
  rcases List.append_eq_append_iff.1 h with ⟨es, rfl, e⟩ | ⟨es, rfl, e⟩
  · cases es with
    | nil =>
        simp only [List.nil_append, List.cons.injEq] at e
        obtain ⟨rfl, rfl⟩ := e
        exact .inl ⟨by simp, rfl, rfl⟩
    | cons e₁ es =>
        simp only [List.cons_append, List.cons.injEq] at e
        obtain ⟨rfl, rfl⟩ := e
        exact .inr (.inr ⟨es, rfl, rfl⟩)
  · cases es with
    | nil =>
        simp only [List.nil_append, List.cons.injEq] at e
        obtain ⟨rfl, rfl⟩ := e
        exact .inl ⟨by simp, rfl, rfl⟩
    | cons e₁ es =>
        simp only [List.cons_append, List.cons.injEq] at e
        obtain ⟨rfl, rfl⟩ := e
        exact .inr (.inl ⟨es, rfl, rfl⟩)

/-- In a list without repetition, a node is neither in what is before it nor in what is behind. -/
theorem not_mem_of_nodup (h : ((cs ++ c :: ds).map Cell.addr).Nodup) :
    c.addr ∉ cs.map Cell.addr ∧ c.addr ∉ ds.map Cell.addr := by
  rw [List.map_append, List.map_cons, List.nodup_append] at h
  obtain ⟨-, hds, hdisj⟩ := h
  exact ⟨fun hc => hdisj _ hc _ List.mem_cons_self rfl, (List.nodup_cons.1 hds).1⟩

end Splits

variable {back : Bool} {x x' : Lst δ} {cs ds : List (Cell δ)} {c : Cell δ}

variable (cs ds) in
/-- A new node `c` between `cs` and `ds`: the last node of `cs` leads to it, and with `back` the
first one of `ds` leads back to it. -/
theorem Rep.link (h : Rep back x (cs ++ ds)) (hfree : x.mem c.addr = none)
    (hself : ∃ p, x'.mem c.addr =
        some { prev := p, next := headAddr ds, key := c.key, data := c.data } ∧
      (back = true → p = lastAddr cs))
    (hother : ∀ b n, x.mem b = some n → ∃ p, x'.mem b =
        some { prev := p, next := if lastAddr cs = some b then some c.addr else n.next
               key := n.key, data := n.data } ∧
      (back = true → p = if headAddr ds = some b then some c.addr else n.prev))
    (honly : ∀ b, b ≠ c.addr → x.mem b = none → x'.mem b = none)
    (hfirst : x'.first = headAddr (cs ++ c :: ds)) (hlast : x'.last = lastAddr (cs ++ c :: ds))
    (hlength : x'.length = x.length + 1) : Rep back x' (cs ++ c :: ds) := by
  have hnot := h.fresh hfree
  have hperm : ((cs ++ c :: ds).map Cell.addr).Nodup := by
    have hnodup := h.nodup
    simp only [List.map_append, List.map_cons, List.nodup_append, List.nodup_cons, List.mem_append,
      List.mem_cons] at hnot hnodup ⊢
    refine ⟨hnodup.1, ⟨fun hd => hnot (.inr hd), hnodup.2.1⟩, ?_⟩
    rintro a ha b (rfl | hb) rfl
    · exact hnot (.inl ha)
    · exact hnodup.2.2 a ha a hb rfl
  refine ⟨hfirst, hlast, ?_, hperm, ?_, ?_⟩
  · intro cs' c' ds' e
    rcases split_cases e with ⟨rfl, rfl, rfl⟩ | ⟨es, rfl, rfl⟩ | ⟨es, rfl, rfl⟩
    · exact hself
    · -- a node before the new one; the last of them leads to it
      obtain ⟨p, hp, hback⟩ := h.node cs' c' (es ++ ds) (by simp)
      obtain ⟨p', hp', hback'⟩ := hother _ _ hp
      have hnodup := h.nodup
      rw [List.append_assoc, List.cons_append] at hnodup
      have hnot := (not_mem_of_nodup hnodup).2
      rw [List.map_append, List.mem_append, not_or] at hnot
      refine ⟨p', ?_, fun hb => ?_⟩
      · have hes : lastAddr es ≠ some c'.addr := fun hl => hnot.1 (mem_of_lastAddr hl)
        rw [hp']
        cases es with
        | nil => simp
        | cons e₁ es => simp [hes]
      · have hds : headAddr ds ≠ some c'.addr := fun hd => hnot.2 (mem_of_headAddr hd)
        rw [hback' hb, hback hb, if_neg hds]
    · -- a node behind the new one; the first of them leads back to it
      obtain ⟨p, hp, hback⟩ := h.node (cs ++ es) c' ds' (by simp)
      obtain ⟨p', hp', hback'⟩ := hother _ _ hp
      have hnodup := h.nodup
      rw [← List.append_assoc] at hnodup
      have hnot := (not_mem_of_nodup hnodup).1
      rw [List.map_append, List.mem_append, not_or] at hnot
      refine ⟨p', ?_, fun hb => ?_⟩
      · have hcs : lastAddr cs ≠ some c'.addr := fun hl => hnot.1 (mem_of_lastAddr hl)
        rw [hp', if_neg hcs]
      · rw [hback' hb, hback hb]
        cases es with
        | nil => simp
        | cons e₁ es =>
            have hne : e₁.addr ≠ c'.addr := fun he => hnot.2 (by simp [he])
            simp [hne]
  · intro b hb
    simp only [List.map_append, List.map_cons, List.mem_append, List.mem_cons] at hb
    push Not at hb
    exact honly b hb.2.1 (h.only b (by simp [hb.1, hb.2.2]))
  · rw [hlength, h.length]
    simp
    omega

/-! ## Stores that link a node in -/

section Stores

variable {a : Addr} {n m m' : Node δ} {e : Cell δ}

theorem ne_of_fresh {b : Addr} (hb : x.mem b = some n) (ha : x.mem a = none) : b ≠ a := by
  rintro rfl
  rw [hb] at ha
  cases ha

/-- Into the empty list. -/
theorem Rep.linkFirst (h : Rep back x []) (ha : x.mem c.addr = none)
    (hmem : x'.mem =
      (x.put c.addr { prev := none, next := none, key := c.key, data := c.data }).mem)
    (hfirst : x'.first = some c.addr) (hlast : x'.last = some c.addr)
    (hlength : x'.length = x.length + 1) : Rep back x' [c] := by
  refine Rep.link [] [] h ha ?_ ?_ ?_ hfirst hlast hlength
  · exact ⟨none, by rw [hmem, put_self]; rfl, fun _ => rfl⟩
  · intro b n hb
    have := h.only b (by simp)
    rw [hb] at this
    cases this
  · intro b hb hnone
    rw [hmem, put_ne _ _ hb, hnone]

/-- Before the first node `e`. -/
theorem Rep.linkFront (h : Rep back x (e :: ds)) (ha : x.mem c.addr = none)
    (he : x.mem e.addr = some m)
    (hmem : x'.mem =
      ((x.put c.addr { prev := none, next := some e.addr, key := c.key, data := c.data }).put e.addr
        (m.setPrev (some c.addr))).mem)
    (hfirst : x'.first = some c.addr) (hlast : x'.last = x.last)
    (hlength : x'.length = x.length + 1) : Rep back x' (c :: e :: ds) := by
  have hne := ne_of_fresh he ha
  refine Rep.link [] (e :: ds) h ha ?_ ?_ ?_ hfirst ?_ hlength
  · exact ⟨none, by rw [hmem, put_ne _ _ hne.symm, put_self]; rfl, fun _ => rfl⟩
  · intro b n hb
    rw [hmem]
    by_cases hbe : b = e.addr
    · subst hbe
      obtain rfl : m = n := Option.some.inj (he.symm.trans hb)
      exact ⟨some c.addr, by rw [put_self]; rfl, fun _ => by simp⟩
    · refine ⟨n.prev, ?_, fun _ => by simp [Ne.symm hbe]⟩
      rw [put_ne _ _ hbe, put_ne _ _ (ne_of_fresh hb ha), hb]
      rfl
  · intro b hb hnone
    rw [hmem, put_ne _ _ (ne_of_fresh he hnone).symm, put_ne _ _ hb, hnone]
  · rw [hlast, h.last]
    exact (lastAddr_append_cons [c] e ds).symm

/-- Behind `e`, without a store in the node that follows. -/
theorem Rep.linkAfter (h : Rep back x (cs ++ e :: ds)) (hback : back = true → ds = [])
    (ha : x.mem c.addr = none) (he : x.mem e.addr = some m)
    (hmem : x'.mem =
      ((x.put c.addr { prev := some e.addr, next := headAddr ds, key := c.key, data := c.data }).put
        e.addr (m.setNext (some c.addr))).mem)
    (hfirst : x'.first = x.first) (hlast : x'.last = lastAddr (c :: ds))
    (hlength : x'.length = x.length + 1) : Rep back x' (cs ++ e :: c :: ds) := by
  have hne := ne_of_fresh he ha
  have hsplit : cs ++ e :: c :: ds = (cs ++ [e]) ++ c :: ds := by simp
  rw [hsplit]
  refine Rep.link _ _ (by simpa using h) ha ?_ ?_ ?_ ?_ ?_ hlength
  · refine ⟨some e.addr, ?_, fun _ => by simp⟩
    rw [hmem, put_ne _ _ hne.symm, put_self]
  · intro b n hb
    rw [hmem]
    have hds : back = true → n.prev = if headAddr ds = some b then some c.addr else n.prev := by
      intro hb
      simp [hback hb]
    by_cases hbe : b = e.addr
    · subst hbe
      obtain rfl : m = n := Option.some.inj (he.symm.trans hb)
      refine ⟨m.prev, ?_, hds⟩
      rw [put_self]
      simp [Node.setNext]
    · refine ⟨n.prev, ?_, hds⟩
      rw [put_ne _ _ hbe, put_ne _ _ (ne_of_fresh hb ha), hb]
      simp [Ne.symm hbe]
  · intro b hb hnone
    rw [hmem, put_ne _ _ (ne_of_fresh he hnone).symm, put_ne _ _ hb, hnone]
  · rw [hfirst, h.first]
    cases cs <;> rfl
  · rw [hlast, lastAddr_append_cons]

/-- Between `e` and `c'`, with a store in either. -/
theorem Rep.linkBetween {c' : Cell δ} (h : Rep back x (cs ++ e :: c' :: ds))
    (ha : x.mem c.addr = none) (he : x.mem e.addr = some m) (hc' : x.mem c'.addr = some m')
    (hmem : x'.mem =
      (((x.put c.addr { prev := some e.addr, next := some c'.addr, key := c.key, data := c.data }).put
        e.addr (m.setNext (some c.addr))).put c'.addr (m'.setPrev (some c.addr))).mem)
    (hfirst : x'.first = x.first) (hlast : x'.last = x.last)
    (hlength : x'.length = x.length + 1) : Rep back x' (cs ++ e :: c :: c' :: ds) := by
  have hne := ne_of_fresh he ha
  have hne' := ne_of_fresh hc' ha
  have hee : e.addr ≠ c'.addr := by
    intro hee
    exact (not_mem_of_nodup h.nodup).2 (by simp [hee])
  have hsplit : cs ++ e :: c :: c' :: ds = (cs ++ [e]) ++ c :: c' :: ds := by simp
  rw [hsplit]
  refine Rep.link _ _ (by simpa using h) ha ?_ ?_ ?_ ?_ ?_ hlength
  · refine ⟨some e.addr, ?_, fun _ => by simp⟩
    rw [hmem, put_ne _ _ hne'.symm, put_ne _ _ hne.symm, put_self]
    rfl
  · intro b n hb
    rw [hmem]
    by_cases hbc : b = c'.addr
    · subst hbc
      obtain rfl : m' = n := Option.some.inj (hc'.symm.trans hb)
      refine ⟨some c.addr, ?_, fun _ => by simp⟩
      rw [put_self]
      simp [Node.setPrev, hee]
    · by_cases hbe : b = e.addr
      · subst hbe
        obtain rfl : m = n := Option.some.inj (he.symm.trans hb)
        refine ⟨m.prev, ?_, fun _ => by simp [hee.symm]⟩
        rw [put_ne _ _ hbc, put_self]
        simp [Node.setNext]
      · refine ⟨n.prev, ?_, fun _ => by simp [Ne.symm hbc]⟩
        rw [put_ne _ _ hbc, put_ne _ _ hbe, put_ne _ _ (ne_of_fresh hb ha), hb]
        simp [Ne.symm hbe]
  · intro b hb hnone
    rw [hmem, put_ne _ _ (ne_of_fresh hc' hnone).symm, put_ne _ _ (ne_of_fresh he hnone).symm,
      put_ne _ _ hb, hnone]
  · rw [hfirst, h.first]
    cases cs <;> rfl
  · rw [hlast, h.last]
    simp

end Stores

/-- The first node is taken out, and with `back` the next one leads back to nothing. -/
theorem Rep.unlink (h : Rep back x (c :: ds)) (hfree : x'.mem c.addr = none)
    (hother : ∀ b n, b ≠ c.addr → x.mem b = some n → ∃ p, x'.mem b =
        some { prev := p, next := n.next, key := n.key, data := n.data } ∧
      (back = true → p = if headAddr ds = some b then none else n.prev))
    (honly : ∀ b, x.mem b = none → x'.mem b = none)
    (hfirst : x'.first = headAddr ds) (hlast : x'.last = lastAddr ds)
    (hlength : x'.length = x.length - 1) : Rep back x' ds := by
  have hnodup := h.nodup
  rw [List.map_cons, List.nodup_cons] at hnodup
  refine ⟨hfirst, hlast, ?_, hnodup.2, ?_, ?_⟩
  · rintro cs' c' ds' rfl
    obtain ⟨p, hp, hback⟩ := h.node (c :: cs') c' ds' rfl
    have hne : c'.addr ≠ c.addr := by
      intro he
      exact hnodup.1 (by simp [he])
    obtain ⟨p', hp', hback'⟩ := hother _ _ hne hp
    refine ⟨p', hp', fun hb => ?_⟩
    rw [hback' hb, hback hb]
    cases cs' with
    | nil => simp
    | cons e₁ es =>
        have hne' : e₁.addr ≠ c'.addr := fun he => (not_mem_of_nodup hnodup.2).1 (by simp [he])
        simp [hne']
  · intro b hb
    by_cases hbc : b = c.addr
    · subst hbc
      exact hfree
    · exact honly b (h.only b (by simp [hbc, hb]))
  · rw [hlength, h.length]
    simp

/-- The only node is taken out. -/
theorem Rep.unlinkOnly (h : Rep back x [c]) (hmem : x'.mem = (x.drop c.addr).mem)
    (hfirst : x'.first = none) (hlast : x'.last = none) (hlength : x'.length = x.length - 1) :
    Rep back x' [] := by
  refine h.unlink ?_ ?_ ?_ hfirst hlast hlength
  · rw [hmem, drop_self]
  · intro b n hbc hb
    refine ⟨n.prev, ?_, fun _ => by simp⟩
    rw [hmem, drop_ne _ hbc, hb]
  · intro b hnone
    rw [hmem]
    by_cases hbc : b = c.addr
    · rw [hbc, drop_self]
    · rw [drop_ne _ hbc, hnone]

/-- The first node is taken out, and the next one `e` leads back to nothing. -/
theorem Rep.unlinkFront {e : Cell δ} {m : Node δ} (h : Rep back x (c :: e :: ds))
    (he : x.mem e.addr = some m)
    (hmem : x'.mem = ((x.put e.addr (m.setPrev none)).drop c.addr).mem)
    (hfirst : x'.first = some e.addr) (hlast : x'.last = x.last)
    (hlength : x'.length = x.length - 1) : Rep back x' (e :: ds) := by
  refine h.unlink ?_ ?_ ?_ hfirst ?_ hlength
  · rw [hmem, drop_self]
  · intro b n hbc hb
    rw [hmem, drop_ne _ hbc]
    by_cases hbe : b = e.addr
    · subst hbe
      obtain rfl : m = n := Option.some.inj (he.symm.trans hb)
      exact ⟨none, by rw [put_self]; rfl, fun _ => by simp⟩
    · refine ⟨n.prev, ?_, fun _ => by simp [Ne.symm hbe]⟩
      rw [put_ne _ _ hbe, hb]
  · intro b hnone
    rw [hmem]
    by_cases hbc : b = c.addr
    · rw [hbc, drop_self]
    · rw [drop_ne _ hbc, put_ne _ _ (ne_of_fresh he hnone).symm, hnone]
  · rw [hlast, h.last, lastAddr_cons_cons]

end Os161.LinkedList
