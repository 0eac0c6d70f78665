import Mathlib.Data.List.TakeWhile
import Os161.List.WellFormed

set_option autoImplicit false

/-!
# The list of os161-dvz-main

Every function ends and does to the contents what `Call.apply` says. The `prev` pointers stay right
as long as no node is put between two others: there `linked_list_insert` forgets the node that
follows (`Call.Between`).
-/

namespace Os161.LinkedList

variable {δ : Type}

/-- An insert whose key is greater than the first one and smaller than a later one. -/
def Call.Between : Call δ → List (Item δ) → Prop
  | .insert key _, i :: is => key.sle i.1 = false ∧ ∃ j ∈ is, j.1.sle key = false
  | _, _ => False

namespace Dvz

open Os161.Lib.Command
open Os161.Synch

variable {back : Bool} {x : Lst δ} {cells : List (Cell δ)} {l : Locals δ}

theorem ensures_prepend (h : Rep back x cells) (data : Option δ) :
    Ensures linkedListPrepend ((Call.prepend data).args, x) (Done .dvz back (.prepend data) cells) := by
  refine .step rfl (.cons ?_)
  cases cells with
  | nil =>
      have hfirst : x.first = none := h.first
      refine .iteTrue (by simp [hfirst]) (.step rfl (.cons ?_))
      refine ensures_createNode h.exists_fresh rfl fun a ha => ?_
      refine .step rfl (.step rfl (.nil (.step rfl (.nil ⟨rfl, [⟨a, 0, data⟩], ?_, rfl⟩))))
      exact h.linkFirst ha rfl rfl rfl rfl
  | cons c cs =>
      obtain ⟨p, hp, -⟩ := h.node [] c cs rfl
      have hfirst : x.first = some c.addr := h.first
      have hkey : (x.node x.first).map (fun n => n.key - 1) = some (c.key - 1) := by
        rw [node_of hfirst hp]
        rfl
      refine .iteFalse (by simp [hfirst]) (.cons ?_)
      refine ensures_createNode h.exists_fresh hkey fun a ha => ?_
      have hne := ne_of_fresh hp ha
      refine .step (modify_put rfl _) ?_
      refine .step (modify_of hfirst ((put_ne _ _ hne).trans hp) _) (.step rfl (.nil ?_))
      refine .step rfl (.nil ⟨rfl, ⟨a, c.key - 1, data⟩ :: c :: cs, ?_, rfl⟩)
      refine h.linkFront ha hp ?_ rfl rfl rfl
      simp only [put_first, hfirst]
      rfl

/-- The search of `linked_list_insert` goes behind the keys that are not greater. -/
theorem ensures_insertLoop {a : Addr} {n : Node δ} (ha : x.mem a = none)
    (ds : List (Cell δ)) : ∀ (cs : List (Cell δ)) (c : Cell δ) (l : Locals δ),
      Rep back x (cs ++ c :: ds) → l.newnode = some a → l.f = some c.addr →
        Ensures insertLoop (l, x.put a n) fun s =>
          s = (l.setF (lastAddr (c :: ds.takeWhile fun d => d.key.sle n.key)), x.put a n) := by
  induction ds with
  | nil =>
      intro cs c l h hl hf
      obtain ⟨p, hp, -⟩ := h.node cs c [] rfl
      have hne := ne_of_fresh hp ha
      have hnode := node_of (rfl : some c.addr = some c.addr) ((put_ne x n hne).trans hp)
      refine .exit ?_ ?_
      · simp [hf, hnode]
      · rw [List.takeWhile_nil, lastAddr_singleton, ← hf]
        rfl
  | cons d ds ih =>
      intro cs c l h hl hf
      obtain ⟨p, hp, -⟩ := h.node cs c (d :: ds) rfl
      obtain ⟨q, hq, -⟩ := h.node (cs ++ [c]) d ds (by simp)
      have hnode := node_of (rfl : some c.addr = some c.addr)
        ((put_ne x n (ne_of_fresh hp ha)).trans hp)
      have hnext := node_of (rfl : some d.addr = some d.addr)
        ((put_ne x n (ne_of_fresh hq ha)).trans hq)
      have hnew := node_of hl (put_self x n)
      cases hle : d.key.sle n.key with
      | true =>
          refine .turn ?_ (.stmt (t := (l.setF (some d.addr), x.put a n)) ?_ ?_)
          · simp [hf, hnode, hnext, hnew, hle]
          · simp [hf, hnode]
          · have hrest := ih (cs ++ [c]) d (l.setF (some d.addr)) (by simpa using h) hl rfl
            refine hrest.mono fun s hs => ?_
            rw [hs, List.takeWhile_cons_of_pos (by exact hle), lastAddr_cons_cons]
            rfl
      | false =>
          refine .exit ?_ ?_
          · simp [hf, hnode, hnext, hnew, hle]
          · rw [List.takeWhile_cons_of_neg (by simp [hle]), lastAddr_singleton, ← hf]
            rfl

/-- The new node is linked in before the first one. -/
theorem ensures_insertFront {c e : Cell δ} {ds : List (Cell δ)} (h : Rep back x (e :: ds))
    (hl : l.newnode = some c.addr) (hf : l.f = some e.addr) (ha : x.mem c.addr = none) :
    Ensures insertFront
      (l, x.put c.addr { prev := none, next := none, key := c.key, data := c.data }) fun s =>
        Rep back (s.2.setLength (s.2.length + 1)) (c :: e :: ds) := by
  obtain ⟨p, hp, -⟩ := h.node [] e ds rfl
  have hne := ne_of_fresh hp ha
  refine .step (modify_put hl _) (.step (modify_of hf ((put_ne _ _ hne).trans hp) _) ?_)
  refine .step rfl (.step rfl (.nil ?_))
  refine h.linkFront ha hp ?_ hl rfl rfl
  simp [hl, hf, Node.setNext, Node.setPrev]

/-- The new node is linked in behind the last key that is not greater. -/
theorem ensures_insertBehind {c e : Cell δ} {ds : List (Cell δ)} (h : Rep back x (e :: ds))
    (hl : l.newnode = some c.addr) (hf : l.f = some e.addr) (ha : x.mem c.addr = none)
    (hback : back = true → ds.dropWhile (fun d => d.key.sle c.key) = []) :
    Ensures insertBehind
      (l, x.put c.addr { prev := none, next := none, key := c.key, data := c.data }) fun s =>
        Rep back (s.2.setLength (s.2.length + 1))
          (e :: ds.takeWhile (fun d => d.key.sle c.key) ++
            c :: ds.dropWhile fun d => d.key.sle c.key) ∧
        ∀ d ∈ ds.dropWhile (fun d => d.key.sle c.key), s.2.mem d.addr = x.mem d.addr := by
  refine .cons ((ensures_insertLoop ha ds [] e l h hl hf).mono ?_)
  rintro _ rfl
  -- the node at which the loop has stopped
  have hcells : e :: ds = (e :: ds.takeWhile fun d => d.key.sle c.key) ++
      ds.dropWhile fun d => d.key.sle c.key := by simp
  rw [hcells] at h
  generalize ds.dropWhile (fun d => d.key.sle c.key) = es at h hback ⊢
  obtain ⟨as, m, has⟩ : ∃ as m, (e :: ds.takeWhile fun d => d.key.sle c.key) = as ++ [m] :=
    ⟨_, _, (List.dropLast_append_getLast (List.cons_ne_nil _ _)).symm⟩
  rw [has] at h ⊢
  have hlast : lastAddr (as ++ [m]) = some m.addr := by simp
  rw [hlast]
  obtain ⟨p, hp, -⟩ := h.node as m es (by simp)
  have hne := ne_of_fresh hp ha
  refine .step (bind_node (node_of rfl ((put_ne _ _ hne).trans hp)) (modify_put hl _)) ?_
  refine .step (modify_put hl _) (.step (modify_of rfl ((put_ne _ _ hne).trans hp) _) (.cons ?_))
  have hnew : ∀ n n' : Node δ, ((x.put c.addr n).put m.addr n').node l.newnode = some n :=
    fun n n' => node_of hl ((put_ne _ _ hne.symm).trans (put_self x n))
  rw [List.append_assoc, List.singleton_append]
  cases es with
  | nil =>
      refine .iteTrue (map_node (hnew _ _) _) (.stmt rfl (.nil ⟨?_, by simp⟩))
      refine Rep.linkAfter (by simpa using h) hback ha hp ?_ rfl hl rfl
      simp [Locals.setF, hl, Node.setNext, Node.setPrev]
  | cons d es =>
      refine .iteFalse (map_node (hnew _ _) _) (.skip (.nil ⟨?_, fun d' hd' => ?_⟩))
      · refine Rep.linkAfter (by simpa using h) hback ha hp ?_ rfl ?_ rfl
        · simp [Locals.setF, hl, Node.setNext, Node.setPrev]
        · refine h.last.trans ?_
          simp
      · -- the nodes that follow are not written
        obtain ⟨us, ws, e'⟩ := List.append_of_mem hd'
        obtain ⟨q, hq, -⟩ := h.node (as ++ [m] ++ us) d' ws (by simp [e'])
        have hnodup := h.nodup
        rw [List.append_assoc] at hnodup
        have hne' : d'.addr ≠ m.addr := by
          intro he
          refine (not_mem_of_nodup hnodup).2 ?_
          rw [← he]
          exact List.mem_map_of_mem hd'
        rw [put_ne _ _ hne', put_ne _ _ (ne_of_fresh hq ha)]

/-- The contents after the new node has been linked in. -/
theorem items_insert (a : Addr) (key : Key) (data : Option δ) (e : Cell δ) (ds : List (Cell δ))
    (h : key.sle e.key = false) :
    items (e :: ds.takeWhile (fun d => d.key.sle key) ++
      ⟨a, key, data⟩ :: ds.dropWhile fun d => d.key.sle key) =
      insertItem key data (items (e :: ds)) := by
  unfold items
  rw [List.cons_append, List.map_cons, List.map_append, List.map_cons, List.map_cons]
  change _ = if key.sle e.key = true then _ else _
  rw [h, List.takeWhile_map, List.dropWhile_map]
  rfl

/-- An insert into a list that is not empty. -/
theorem ensures_insert_cons {c : Cell δ} {cs : List (Cell δ)} {Q : Locals δ × Lst δ → Prop}
    (h : Rep back x (c :: cs)) (key : Key) (data : Option δ)
    (hlink : ∀ a, x.mem a = none →
      Ensures (if key.sle c.key then insertFront else insertBehind)
        (((Call.insert key data).args.setF (some c.addr)).setNewnode a key,
          x.put a { prev := none, next := none, key := key, data := data })
        fun s => Q (s.1, s.2.setLength (s.2.length + 1))) :
    Ensures linkedListInsert ((Call.insert key data).args, x) Q := by
  obtain ⟨p, hp, -⟩ := h.node [] c cs rfl
  have hfirst : x.first = some c.addr := h.first
  refine .step rfl (.step rfl (.cons ?_))
  rw [hfirst]
  refine .iteFalse rfl (.cons (ensures_createNode h.exists_fresh rfl fun a ha => .cons ?_))
  have hnode := fun n => node_of (rfl : some c.addr = _) ((put_ne x n (ne_of_fresh hp ha)).trans hp)
  have hnew := fun n => node_of (rfl : some a = _) (put_self x n)
  have hlink := hlink a ha
  cases hle : key.sle c.key with
  | true =>
      rw [hle, if_pos rfl] at hlink
      refine .iteTrue (bind_node (hnew _) (bind_node (hnode _) (congrArg some hle))) ?_
      exact hlink.mono fun s hs => .nil (.step rfl (.nil hs))
  | false =>
      rw [hle, if_neg Bool.false_ne_true] at hlink
      refine .iteFalse (bind_node (hnew _) (bind_node (hnode _) (congrArg some hle))) ?_
      exact hlink.mono fun s hs => .nil (.step rfl (.nil hs))

theorem ensures_insert (h : Rep back x cells) (key : Key) (data : Option δ)
    (hback : back = true → ¬ (Call.insert key data).Between (items cells)) :
    Ensures linkedListInsert ((Call.insert key data).args, x)
      (Done .dvz back (.insert key data) cells) := by
  cases cells with
  | nil =>
      have hfirst : x.first = none := h.first
      refine .step rfl (.step rfl (.cons ?_))
      rw [hfirst]
      refine .iteTrue rfl (.cons (ensures_createNode h.exists_fresh rfl fun a ha => ?_))
      refine .step rfl (.step rfl (.nil (.step rfl (.nil ⟨rfl, [⟨a, key, data⟩], ?_, rfl⟩))))
      exact h.linkFirst ha rfl rfl rfl rfl
  | cons c cs =>
      refine ensures_insert_cons h key data fun a ha => ?_
      cases hle : key.sle c.key with
      | true =>
          refine (ensures_insertFront (c := ⟨a, key, data⟩) h rfl rfl ha).mono fun s hs => ?_
          refine ⟨rfl, _, hs, ?_⟩
          change _ = if key.sle c.key = true then _ else _
          rw [hle]
          rfl
      | false =>
          have hback' : back = true → cs.dropWhile (fun d => d.key.sle key) = [] := by
            intro hb
            rw [List.dropWhile_eq_nil_iff]
            intro d hd
            by_contra hne
            exact hback hb ⟨hle, d.item, List.mem_map_of_mem hd, Bool.eq_false_of_not_eq_true hne⟩
          refine (ensures_insertBehind (c := ⟨a, key, data⟩) h rfl rfl ha hback').mono ?_
          rintro s ⟨hs, -⟩
          exact ⟨rfl, _, hs, items_insert a key data c cs hle⟩

/-- A node put between two others: the one that follows leads back to the one before it. -/
theorem ensures_insert_between (h : Rep true x cells) (key : Key) (data : Option δ)
    (hbetween : (Call.insert key data).Between (items cells)) :
    Ensures linkedListInsert ((Call.insert key data).args, x) fun s => ∀ as, ¬ WellFormed s.2 as := by
  cases cells with
  | nil => exact hbetween.elim
  | cons c cs =>
      obtain ⟨hle, i, hi, hlt⟩ := hbetween
      obtain ⟨d, hd, rfl⟩ := List.mem_map.1 hi
      have hle : key.sle c.key = false := hle
      have hlt : d.key.sle key = false := hlt
      refine ensures_insert_cons h key data fun a ha => ?_
      rw [if_neg (by rw [hle]; exact Bool.false_ne_true)]
      refine (ensures_insertBehind (c := ⟨a, key, data⟩) h.weaken rfl rfl ha nofun).mono ?_
      rintro s ⟨hrep, hsame⟩ as hwf
      have hcells : c :: cs = (c :: cs.takeWhile fun d => d.key.sle key) ++
          cs.dropWhile fun d => d.key.sle key := by simp
      cases hdrop : cs.dropWhile fun d => d.key.sle key with
      | nil =>
          have := List.dropWhile_eq_nil_iff.1 hdrop d hd
          exact absurd (hlt.symm.trans this) Bool.false_ne_true
      | cons e es =>
          simp only [hdrop] at hrep hsame hcells
          -- `e` follows the new node, and its `prev` pointer is the one it had before
          obtain rfl := hwf.forward.unique hrep.follows
          rw [List.map_append, List.map_cons, List.map_cons] at hwf
          obtain ⟨n, hn, hprev⟩ := hwf.prev
          obtain ⟨p, hp, hback⟩ := h.node _ e es hcells
          obtain rfl := Option.some.inj ((hp.symm.trans (hsame e List.mem_cons_self).symm).trans hn)
          have hlast := mem_of_lastAddr ((hback rfl).symm.trans hprev)
          refine h.fresh ha ?_
          rw [hcells, List.map_append]
          exact List.mem_append_left _ hlast

theorem ensures_removeHead (h : Rep back x cells) :
    Ensures linkedListRemoveHead (Call.removeHead.args, x) (Done .dvz back .removeHead cells) := by
  cases cells with
  | nil =>
      have hfirst : x.first = none := h.first
      exact .iteFalse (by simp [hfirst]) (.stmt rfl ⟨rfl, [], h, rfl⟩)
  | cons c cs =>
      obtain ⟨p, hp, -⟩ := h.node [] c cs rfl
      have hfirst : x.first = some c.addr := h.first
      refine .iteTrue (by simp [hfirst]) (.step rfl ?_)
      refine .step (map_node (node_of hfirst hp) _) (.step (map_node (node_of hfirst hp) _) ?_)
      refine .step rfl (.step (map_node (node_of hfirst hp) _) (.cons ?_))
      cases cs with
      | nil =>
          refine .iteFalse rfl (.skip (.step rfl (.step rfl (.step (kfree_of hfirst hp) ?_))))
          refine .cons (.iteTrue rfl (.stmt rfl (.step rfl (.nil ⟨rfl, [], ?_, rfl⟩))))
          exact h.unlinkOnly (by simp) rfl rfl rfl
      | cons e es =>
          obtain ⟨q, hq, -⟩ := h.node [c] e es rfl
          have hec : c.addr ≠ e.addr := by
            intro hec
            exact (List.nodup_cons.1 h.nodup).1 (by simp [hec])
          have hput : ∀ n : Node δ, (x.put e.addr n).mem c.addr = _ := fun n =>
            (put_ne x n hec).trans hp
          have hq' : (x.setFirst (some e.addr)).mem e.addr = _ := hq
          refine .iteTrue rfl (.stmt (modify_of rfl hq' _) (.step rfl (.step rfl ?_)))
          refine .step (kfree_of hfirst (hput _)) (.cons ?_)
          refine .iteFalse rfl (.skip (.step rfl (.nil ⟨rfl, e :: es, ?_, rfl⟩)))
          exact h.unlinkFront hq (by simp) rfl rfl rfl

end Dvz

end Os161.LinkedList
