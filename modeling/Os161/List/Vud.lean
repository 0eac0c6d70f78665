import Os161.List.Contents

set_option autoImplicit false

/-!
# The list of os161-vud-proj1-proj2

Every function ends, keeps the list well-formed in both directions, and does to its contents what
`Call.apply` says.
-/

namespace Os161.LinkedList.Vud

open Os161.Lib.Command
open Os161.Synch

variable {δ : Type} {x : Lst δ} {cells : List (Cell δ)} {l : Locals δ}

theorem ensures_prepend (h : Rep true x cells) (data : Option δ) :
    Ensures linkedListPrepend ((Call.prepend data).args, x) (Done .vud true (.prepend data) cells) := by
  refine .step rfl (.cons ?_)
  cases cells with
  | nil =>
      have hfirst : x.first = none := h.first
      refine .iteTrue (by simp [hfirst]) (.step rfl (.cons ?_))
      refine ensures_createNode h.exists_fresh rfl fun a ha => ?_
      refine .step rfl (.step rfl (.nil (.step rfl (.nil ⟨rfl, [⟨a, 0, data⟩], ?_, rfl⟩))))
      exact h.linkFirst ha rfl rfl rfl rfl
  | cons c cs =>
      obtain ⟨p, hp, -⟩ := h.node [] c cs rfl
      have hfirst : x.first = some c.addr := h.first
      have hkey : (x.node x.first).map (fun n => n.key - 1) = some (c.key - 1) := by
        rw [node_of hfirst hp]
        rfl
      refine .iteFalse (by simp [hfirst]) (.cons ?_)
      refine ensures_createNode h.exists_fresh hkey fun a ha => ?_
      have hne := ne_of_fresh hp ha
      refine .step (modify_put rfl _) (.step rfl ?_)
      refine .step (modify_of hfirst ((put_ne _ _ hne).trans hp) _) (.step rfl (.nil ?_))
      refine .step rfl (.nil ⟨rfl, ⟨a, c.key - 1, data⟩ :: c :: cs, ?_, rfl⟩)
      refine h.linkFront ha hp ?_ rfl rfl rfl
      simp only [put_first, hfirst]
      rfl

/-- The search of `linked_list_insert` stops at the first node with a key that is not smaller. -/
theorem ensures_insertLoop (ds : List (Cell δ)) : ∀ (cs : List (Cell δ)) (l : Locals δ),
    Rep true x (cs ++ ds) → l.runner = headAddr ds →
      Ensures insertLoop (l, x) fun s =>
        s = (l.setRunner (headAddr (ds.dropWhile fun c => c.key.slt l.key)), x) := by
  induction ds with
  | nil =>
      intro cs l _ hl
      refine .exit ?_ ?_
      · simp [hl]
      · rw [List.dropWhile_nil, ← hl]
        rfl
  | cons c ds ih =>
      intro cs l h hl
      obtain ⟨p, hp, -⟩ := h.node cs c ds rfl
      have hnode := node_of rfl hp
      cases hlt : c.key.slt l.key with
      | true =>
          refine .turn ?_ (.stmt (t := (l.setRunner (headAddr ds), x)) ?_ ?_)
          · simp [hl, hnode, hlt]
          · simp [hl, hnode]
          · have hrest := ih (cs ++ [c]) (l.setRunner (headAddr ds)) (by simpa using h) rfl
            refine hrest.mono fun s hs => ?_
            rw [hs, List.dropWhile_cons_of_pos (by exact hlt)]
            rfl
      | false =>
          refine .exit ?_ ?_
          · simp [hl, hnode, hlt]
          · rw [List.dropWhile_cons_of_neg (by simp [hlt]), ← hl]
            rfl

/-- The new node is linked in before the node that has been found. -/
theorem ensures_insertLink {cs ds : List (Cell δ)} {c : Cell δ} (h : Rep true x (cs ++ ds))
    (hl : l.newnode = some c.addr) (hr : l.runner = headAddr ds) (ha : x.mem c.addr = none) :
    Ensures (.block [insertLink, incrLength])
      (l, x.put c.addr { prev := none, next := none, key := c.key, data := c.data }) fun s =>
        s.1 = l ∧ Rep true s.2 (cs ++ c :: ds) := by
  cases ds with
  | nil =>
      refine .cons (.iteTrue (by simp [hr]) (.step (modify_put hl _) (.cons ?_)))
      have hlast : x.last = lastAddr (cs ++ []) := h.last
      rw [List.append_nil] at h hlast
      rcases List.eq_nil_or_concat cs with rfl | ⟨cs, e, rfl⟩
      · refine .iteFalse (by simp [hlast]) (.stmt rfl (.step rfl (.nil (.step rfl (.nil ⟨rfl, ?_⟩)))))
        refine h.linkFirst ha ?_ hl hl rfl
        simp [hlast, Node.setPrev]
      · rw [List.concat_eq_append] at h hlast ⊢
        obtain ⟨p, hp, -⟩ := h.node cs e [] rfl
        have hlast : x.last = some e.addr := by simpa using hlast
        have hne := ne_of_fresh hp ha
        refine .iteTrue (by simp [hlast]) (.stmt (modify_of hlast ((put_ne _ _ hne).trans hp) _) ?_)
        refine .step rfl (.nil (.step rfl (.nil ⟨rfl, ?_⟩)))
        rw [List.append_assoc]
        refine h.linkAfter (fun _ => rfl) ha hp ?_ rfl hl rfl
        simp [hl, hlast, Node.setPrev]
  | cons c' ds =>
      obtain ⟨p', hp', hback⟩ := h.node cs c' ds rfl
      obtain rfl := hback rfl
      have hne' := ne_of_fresh hp' ha
      have hr : l.runner = some c'.addr := hr
      have hput : ∀ n : Node δ, (x.put c.addr n).mem c'.addr =
          some { prev := lastAddr cs, next := headAddr ds, key := c'.key, data := c'.data } :=
        fun n => (put_ne x n hne').trans hp'
      have hnode := fun n => node_of hr (hput n)
      refine .cons (.iteFalse (by simp [hr]) (.step (bind_node (hnode _) (modify_put hl _)) ?_))
      refine .step (modify_put hl _) (.cons ?_)
      rcases List.eq_nil_or_concat cs with rfl | ⟨cs, e, rfl⟩
      · have hput' : ∀ (n : Node δ) q, ((x.put c.addr n).setFirst q).mem c'.addr =
            some { prev := none, next := headAddr ds, key := c'.key, data := c'.data } :=
          fun n _ => hput n
        refine .iteFalse (by simp [hnode]) (.stmt rfl (.step (modify_of hr (hput' _ _) _) ?_))
        refine .nil (.step rfl (.nil ⟨rfl, ?_⟩))
        refine h.linkFront ha hp' ?_ hl rfl rfl
        simp [hr, hl, Node.setNext, Node.setPrev]
      · rw [List.concat_eq_append] at h hput hnode hp' ⊢
        obtain ⟨p, hp, -⟩ := h.node cs e (c' :: ds) (by simp)
        have hne := ne_of_fresh hp ha
        have hee : c'.addr ≠ e.addr := by
          rintro hee
          exact (not_mem_of_nodup h.nodup).1 (by simp [hee])
        have hpute : ∀ n : Node δ, (x.put c.addr n).mem e.addr =
            some { prev := p, next := some c'.addr, key := e.key, data := e.data } :=
          fun n => (put_ne x n hne).trans hp
        have hput' : ∀ n m : Node δ, ((x.put c.addr n).put e.addr m).mem c'.addr =
            some { prev := some e.addr, next := headAddr ds, key := c'.key, data := c'.data } :=
          fun n m => (put_ne _ m hee).trans (by simpa using hput n)
        have hprev : lastAddr (cs ++ [e]) = some e.addr := by simp
        refine .iteTrue (by simp [hnode])
          (.stmt (bind_node (hnode _) (modify_of hprev (hpute _) _)) ?_)
        refine .step (modify_of hr (hput' _ _) _) (.nil (.step rfl (.nil ⟨rfl, ?_⟩)))
        rw [List.append_assoc]
        refine Rep.linkBetween (by simpa using h) ha hp (by simpa using hp') ?_ rfl rfl rfl
        simp [hr, hl, Node.setNext, Node.setPrev]

/-- The contents after the new node has been linked in. -/
theorem items_insert (a : Addr) (key : Key) (data : Option δ) :
    items (cells.takeWhile (fun c => c.key.slt key) ++
      ⟨a, key, data⟩ :: cells.dropWhile fun c => c.key.slt key) =
      insertItem key data (items cells) := by
  unfold items insertItem
  rw [List.map_append, List.map_cons, List.takeWhile_map, List.dropWhile_map]
  rfl

theorem ensures_insert (h : Rep true x cells) (key : Key) (data : Option δ) :
    Ensures linkedListInsert ((Call.insert key data).args, x) (Done .vud true (.insert key data) cells) := by
  refine .step rfl (.cons ((ensures_insertLoop cells [] _ h h.first).mono ?_))
  rintro _ rfl
  refine .step rfl (.cons (ensures_createNode h.exists_fresh rfl fun a ha => ?_))
  rw [← List.takeWhile_append_dropWhile (p := fun c => c.key.slt key) (l := cells)] at h
  refine (ensures_insertLink (c := ⟨a, key, data⟩) h rfl rfl ha).mono ?_
  rintro ⟨l, x'⟩ ⟨-, hrep⟩
  exact ⟨rfl, _, hrep, items_insert a key data⟩

theorem ensures_removeHead (h : Rep true x cells) :
    Ensures linkedListRemoveHead (Call.removeHead.args, x) (Done .vud true .removeHead cells) := by
  refine .step rfl (.step rfl (.cons ?_))
  cases cells with
  | nil =>
      have hfirst : x.first = none := h.first
      refine .iteTrue ?_ (.stmt rfl (.nil ?_))
      · rw [hfirst]
        rfl
      · exact ⟨rfl, [], h, rfl⟩
  | cons c cs =>
      obtain ⟨p, hp, -⟩ := h.node [] c cs rfl
      have hhead : (Call.removeHead.args.setHead x.first : Locals δ).head = some c.addr := h.first
      have hlast := h.last
      refine .iteFalse (by simp [hhead]) (.cons ?_)
      cases cs with
      | nil =>
          refine .iteTrue (by simp [hhead, hlast]) (.stmt rfl (.step rfl ?_))
          refine .step (map_node (node_of hhead hp) _) (.step (map_node (node_of hhead hp) _) ?_)
          refine .step (map_node (node_of hhead hp) _) (.step rfl ?_)
          refine .step (kfree_of hhead hp) (.step rfl (.nil (.nil ⟨rfl, [], ?_, rfl⟩)))
          exact h.unlinkOnly (by simp) rfl rfl rfl
      | cons e es =>
          obtain ⟨q, hq, -⟩ := h.node [c] e es rfl
          have hec : c.addr ≠ e.addr := by
            intro hec
            exact (List.nodup_cons.1 h.nodup).1 (by simp [hec])
          have hother : x.last ≠ some c.addr := by
            rw [hlast, lastAddr_cons_cons]
            intro hl
            exact (List.nodup_cons.1 h.nodup).1 (mem_of_lastAddr hl)
          have hput : ∀ n : Node δ, (x.put e.addr n).mem c.addr = _ := fun n =>
            (put_ne x n hec).trans hp
          refine .iteFalse (by simp [hhead, hother.symm])
            (.stmt (bind_node (node_of hhead hp) (modify_of rfl hq _)) (.step rfl ?_))
          refine .step (map_node (node_of hhead (hput _)) _) ?_
          refine .step (map_node (node_of hhead (hput _)) _) ?_
          refine .step (map_node (node_of hhead (hput _)) _) (.step rfl ?_)
          refine .step (kfree_of hhead (hput _)) (.step rfl (.nil (.nil ⟨rfl, e :: es, ?_, rfl⟩)))
          exact h.unlinkFront hq (by simp) rfl rfl rfl

end Os161.LinkedList.Vud
