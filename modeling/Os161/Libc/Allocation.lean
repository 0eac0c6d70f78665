import Mathlib.Data.List.Chain
import Os161.Libc.Tiling

set_option autoImplicit false

/-!
# What malloc and free do to the row

`malloc` takes a free block, cuts off what it does not need and marks the rest as used; when no
block fits, the row grows at the top. `free` marks a block as free and merges it with its
neighbours. In a row without free neighbours (`Separated`) whose last block is not empty, both keep
these two properties, and the used blocks stay where they are.
-/

namespace Os161.Libc

open Os161.Lib.Calls
open Os161.Lib.Tiles

variable {s : Heap} {l m r bs : List Block} {b c d : Block} {a x y k : Nat} {ok : Exit → Prop}

/-! ## Used blocks -/

/-- The block `b` of the row from `a` on starts at `x` and is in use. -/
def Used (a : Nat) (bs : List Block) (x : Nat) (b : Block) : Prop :=
  At Block.len a bs x b ∧ b.inuse = true

theorem used_append : Used a (l ++ r) x b ↔
    Used a l x b ∨ Used (a + total Block.len l) r x b := by
  unfold Used
  rw [at_append, or_and_right]

theorem used_cons : Used a (c :: bs) x b ↔
    (x = a ∧ b = c ∧ c.inuse = true) ∨ Used (a + c.len) bs x b := by
  unfold Used
  rw [At, or_and_right]
  refine or_congr ⟨?_, ?_⟩ Iff.rfl
  · rintro ⟨⟨rfl, rfl⟩, h⟩
    exact ⟨rfl, rfl, h⟩
  · rintro ⟨rfl, rfl, h⟩
    exact ⟨⟨rfl, rfl⟩, h⟩

@[simp] theorem not_used_nil : ¬ Used a [] x b := fun h => h.1

/-- Free blocks in the middle are replaced by free ones. -/
theorem used_replace {m' : List Block} (hlen : total Block.len m' = total Block.len m)
    (hm : ∀ a x b, Used a m' x b ↔ Used a m x b) :
    Used a (l ++ (m' ++ r)) x b ↔ Used a (l ++ (m ++ r)) x b := by
  simp only [used_append, hm, hlen]

theorem used_merge : Used a (merge b c) x d ↔ Used a [b, c] x d := by
  unfold merge
  split_ifs with h
  · rfl
  · obtain ⟨hb, hc⟩ := not_or.1 h
    simp [used_cons, hb, hc]

/-! ## Separated rows -/

/-- No two neighbours are both free. -/
def Separated (bs : List Block) : Prop :=
  bs.IsChain fun b c => b.inuse = true ∨ c.inuse = true

/-- The last block has room for data. -/
def TopFilled (bs : List Block) : Prop := ∀ b ∈ bs.getLast?, 0 < b.data

/-- A row between two calls. -/
structure Sound (bs : List Block) : Prop where
  separated : Separated bs
  topFilled : TopFilled bs

theorem separated_nil : Separated [] := List.isChain_nil

theorem separated_cons_free (hb : b.inuse = false) :
    Separated (b :: bs) ↔ (∀ c ∈ bs.head?, c.inuse = true) ∧ Separated bs := by
  unfold Separated
  rw [List.isChain_cons]
  simp [hb]

/-- A block that is in use separates what is on its two sides. -/
theorem separated_append_used (hb : b.inuse = true) :
    Separated (l ++ b :: r) ↔ Separated l ∧ Separated r := by
  unfold Separated
  rw [List.isChain_append, List.isChain_cons]
  constructor
  · rintro ⟨hl, ⟨-, hr⟩, -⟩
    exact ⟨hl, hr⟩
  · rintro ⟨hl, hr⟩
    refine ⟨hl, ⟨fun _ _ => .inl hb, hr⟩, fun x _ y hy => .inr ?_⟩
    obtain rfl : b = y := by simpa using hy
    exact hb

theorem separated_append_free (hb : b.inuse = false) :
    Separated (l ++ b :: r) ↔ (Separated l ∧ ∀ c ∈ l.getLast?, c.inuse = true) ∧
      (∀ c ∈ r.head?, c.inuse = true) ∧ Separated r := by
  rw [← separated_cons_free hb]
  unfold Separated
  rw [List.isChain_append]
  simp only [List.head?_cons, Option.mem_some_iff, forall_eq', hb, Bool.false_eq_true, or_false]
  constructor
  · rintro ⟨hl, hr, hlast⟩
    exact ⟨⟨hl, hlast⟩, hr⟩
  · rintro ⟨⟨hl, hlast⟩, hr⟩
    exact ⟨hl, hr, hlast⟩

theorem topFilled_append_cons : TopFilled (l ++ b :: r) ↔ TopFilled (b :: r) := by
  unfold TopFilled
  rw [List.getLast?_append_cons]

theorem topFilled_cons_cons : TopFilled (b :: c :: r) ↔ TopFilled (c :: r) := by
  unfold TopFilled
  rw [List.getLast?_cons_cons]

/-- A block with room keeps the top filled, whatever follows. -/
theorem TopFilled.cons (hr : r ≠ [] → TopFilled (d :: r)) (hb : r = [] → 0 < b.data) :
    TopFilled (b :: r) := by
  cases r with
  | nil =>
      intro e he
      obtain rfl : b = e := by simpa using he
      exact hb rfl
  | cons c r' =>
      rw [topFilled_cons_cons]
      exact topFilled_cons_cons.1 (hr (List.cons_ne_nil _ _))

/-! ## A block that is taken -/

/-- The block that is handed out when `k` units are taken from `b`. -/
def takenHead (k : Nat) (b : Block) : Block :=
  { data := if b.data - k < 2 then b.data else k, inuse := true }

/-- The block that is cut off, if there is room for it. -/
def takenTail (k : Nat) (b : Block) : List Block :=
  if b.data - k < 2 then [] else [{ data := b.data - k - 1, inuse := false }]

theorem cut_eq : cut k b = { takenHead k b with inuse := b.inuse } :: takenTail k b := by
  unfold cut takenHead takenTail
  split_ifs <;> rfl

theorem le_takenHead (hk : k ≤ b.data) : k ≤ (takenHead k b).data := by
  unfold takenHead
  dsimp only
  split_ifs <;> omega

theorem total_taken (hk : k ≤ b.data) :
    (takenHead k b).len + total Block.len (takenTail k b) = b.len := by
  rw [← total_cut hk, cut_eq, total_cons]
  rfl

theorem used_takenTail : ¬ Used a (takenTail k b) x d := by
  unfold takenTail
  split_ifs
  · exact not_used_nil
  · simp [used_cons]

/-- In place of a free block there is one that is handed out. -/
theorem used_taken (hk : k ≤ b.data) (hb : b.inuse = false) :
    Used a (l ++ takenHead k b :: (takenTail k b ++ r)) y d ↔
      Used a (l ++ b :: r) y d ∨ (y = a + total Block.len l ∧ d = takenHead k b) := by
  have hlen := total_taken hk
  simp only [used_append, used_cons, used_takenTail, false_or, hb, Bool.false_eq_true, and_false,
    Nat.add_assoc, hlen]
  have hin : (takenHead k b).inuse = true := rfl
  simp only [hin, and_true]
  constructor
  · rintro (h | h | h)
    · exact .inl (.inl h)
    · exact .inr h
    · exact .inl (.inr h)
  · rintro ((h | h) | h)
    · exact .inl h
    · exact .inr (.inr h)
    · exact .inr (.inl h)

/-- The row stays sound when a block is taken behind which no free block stands. -/
theorem sound_taken (hl : Separated l) (hr : Separated r) (hhead : ∀ c ∈ r.head?, c.inuse = true)
    (htop : TopFilled (b :: r)) : Sound (l ++ takenHead k b :: (takenTail k b ++ r)) := by
  have hin : (takenHead k b).inuse = true := rfl
  unfold takenTail
  split_ifs with hroom
  · refine ⟨(separated_append_used hin).2 ⟨hl, hr⟩, ?_⟩
    rw [topFilled_append_cons]
    refine TopFilled.cons (fun _ => htop) fun hnil => ?_
    rw [List.nil_append] at hnil
    have hb : 0 < b.data := htop b (by rw [hnil]; rfl)
    unfold takenHead
    rwa [if_pos hroom]
  · refine ⟨(separated_append_used hin).2 ⟨hl, ?_⟩, ?_⟩
    · exact (separated_cons_free rfl).2 ⟨hhead, hr⟩
    · rw [topFilled_append_cons, List.singleton_append, topFilled_cons_cons]
      refine TopFilled.cons (fun _ => htop) fun _ => ?_
      change 0 < b.data - k - 1
      omega

/-- What a call of `malloc` that succeeds has done: a block with at least `k` units has been handed
out. -/
def Allocates (s : Heap) (bs : List Block) (k p : Nat) (t : Heap) : Prop :=
  ∃ bs' x b, p = x + 8 ∧ t.heapbase = s.heapbase ∧ Tiled t bs' ∧ Sound bs' ∧ k ≤ b.data ∧
    (∀ y d, Used s.heapbase bs' y d ↔ Used s.heapbase bs y d ∨ (y = x ∧ d = b)) ∧
    ∀ d, ¬ Used s.heapbase bs x d

theorem mData_eq {x : Nat} (h : x + 8 < 2 ^ 32) : mData x = x + 8 := addSize_eq h

/-- The split, and the mark, on a block that fits. -/
theorem gives_take (h : Tiled s (l ++ b :: r)) (hk : k ≤ b.data) :
    Gives ok (do
        mallocSplit (s.heapbase + total Block.len l) (8 * k)
        let h ← readHeader (s.heapbase + total Block.len l)
        writeHeader (s.heapbase + total Block.len l) { h with inuse := true }
        pure (mData (s.heapbase + total Block.len l)))
      (fun p t => p = s.heapbase + total Block.len l + 8 ∧ t.heapbase = s.heapbase ∧
        Tiled t (l ++ takenHead k b :: (takenTail k b ++ r))) s := by
  have hend := h.end_le
  have hsmall := h.small
  have hb : b.len = 8 * (b.data + 1) := rfl
  rw [gives_bind]
  refine gives_mono (gives_mallocSplit h hk) ?_
  rintro _ _ ⟨mem, rfl, ht⟩
  rw [cut_eq, List.cons_append] at ht
  have hmem : mem (s.heapbase + total Block.len l) = _ := ht.mem_eq
  simp only [readHeader, writeHeader, gives_bind, gives_get, gives_pure, gives_modify, hmem,
    true_and]
  exact ⟨mData_eq (by omega), ht.write (c := takenHead k b) rfl⟩

/-! ## A heap that grows -/

/-- The end of the row is replaced by a longer one. -/
theorem Tiled.grow {n : List Block} {more : Nat} (h : Tiled s (l ++ m)) (mem' : Nat → Mheader)
    (hlen : total Block.len n = total Block.len m + more) (hsmall : s.heaptop + more < 2 ^ 32)
    (hn : Laid Block.len (Holds mem') (s.heapbase + total Block.len l) (lastLen Block.len 0 l) n)
    (hsame : ∀ a, a < s.heapbase + total Block.len l → mem' a = s.mem a) :
    Tiled { s with heaptop := s.heaptop + more, brk := s.brk + more, mem := mem' } (l ++ n) := by
  refine ⟨h.base, laid_append.2 ⟨?_, hn⟩, ?_, ?_, hsmall⟩
  · refine (laid_append.1 h.laid).1.congr fun a q d hat hd => ?_
    have := hat.bounds
    have := d.len_pos
    exact (hsame a (by omega)).trans hd
  · show s.heaptop + more = s.heapbase + total Block.len (l ++ n)
    rw [h.top, total_append, total_append, hlen]
    omega
  · show s.brk + more = s.heaptop + more
    rw [h.brk]

/-- `sbrk` fails, or it moves the top of the heap. -/
theorem gives_mallocSbrk (h : Tiled s bs) (more : Bool) (size : Nat) :
    Gives ok (mallocSbrk more size)
      (fun p t => (p = none ∧ t = s) ∨ (p = some s.heaptop ∧ s.heaptop + size < 2 ^ 32 ∧
        t = { s with heaptop := s.heaptop + size, brk := s.brk + size })) s := by
  simp only [mallocSbrk, sbrk, gives_bind, gives_get]
  by_cases hc : more = true ∧ s.brk + size < 2 ^ 32
  · have hlt : s.heaptop + size < 2 ^ 32 := h.brk ▸ hc.2
    rw [if_pos hc]
    simp only [gives_bind, gives_modify, gives_pure, gives_get]
    rw [if_neg (not_not.2 h.brk)]
    simp only [gives_bind, gives_modify, gives_pure]
    refine .inr ⟨by rw [h.brk], hlt, by rw [addSize_eq hlt]⟩
  · rw [if_neg hc]
    simp only [gives_pure, true_and, true_or]

theorem roundPages_spec {space : Nat} (h : space + 4095 < 2 ^ 32) :
    space ≤ roundPages space ∧ roundPages space % 4096 = 0 := by
  unfold roundPages pageSize
  rw [addSize_eq (by omega)]
  have hlt : 4096 * ((space + (4096 - 1)) / 4096) < 2 ^ 32 := by omega
  rw [Nat.mod_eq_of_lt hlt]
  omega

/-- A row that has been made longer at its end. -/
theorem gives_take_top {t : Heap} (ht : Tiled t (l ++ [b])) (hk : k ≤ b.data) (hb : 0 < b.data)
    (hl : Separated l) (hbase : t.heapbase = s.heapbase)
    (hused : ∀ y d, Used s.heapbase bs y d ↔ Used s.heapbase l y d)
    (hin : b.inuse = true) :
    Gives ok (do
        mallocSplit (t.heapbase + total Block.len l) (8 * k)
        pure (mData (t.heapbase + total Block.len l)))
      (fun p u => Allocates s bs k p u) t := by
  have hend := ht.end_le
  have hsmall := ht.small
  have hlen : b.len = 8 * (b.data + 1) := rfl
  rw [gives_bind]
  refine gives_mono (gives_mallocSplit ht hk) ?_
  rintro _ _ ⟨mem, rfl, hu⟩
  rw [gives_pure]
  have hhead : { takenHead k b with inuse := b.inuse } = takenHead k b := by rw [hin]; rfl
  rw [cut_eq, hhead] at hu
  refine ⟨_, t.heapbase + total Block.len l, takenHead k b, mData_eq (by omega), hbase, hu, ?_,
    le_takenHead hk, fun y d => ?_, fun d hd => ?_⟩
  · exact sound_taken hl separated_nil (by simp) fun e he => by
      obtain rfl : b = e := by simpa using he
      exact hb
  · rw [List.cons_append, used_append, used_cons, used_append, hused, ← hbase]
    simp [used_takenTail, takenHead]
  · have hat := ((hused _ _).1 hd).1.bounds
    have := d.len_pos
    omega

/-- `malloc` returns NULL and has done nothing, or it has handed out a block. -/
def Answers (s : Heap) (bs : List Block) (k p : Nat) (t : Heap) : Prop :=
  (p = 0 ∧ t = s) ∨ Allocates s bs k p t

/-- A free block at the top is not used. -/
theorem used_concat_free (hb : b.inuse = false) : Used a (l ++ [b]) y d ↔ Used a l y d := by
  simp [used_append, used_cons, hb]

theorem gives_newTop (h : Tiled s bs) (hs : Separated bs) (hk : 8 * k + 8 + 4095 < 2 ^ 32)
    (env : SbrkEnv) :
    Gives ok (newTop env (8 * k) (lastLen Block.len 0 bs / 8)) (Answers s bs k) s := by
  have hadd : addSize mblocksize (8 * k) = 8 * k + 8 := by
    rw [addSize_eq (by unfold mblocksize; omega)]
    unfold mblocksize
    omega
  obtain ⟨hle, hmod⟩ := roundPages_spec hk
  unfold newTop
  rw [hadd]
  set more := roundPages (8 * k + 8) with hmore
  set b : Block := { data := more / 8 - 1, inuse := true } with hb
  have hdata : b.data = more / 8 - 1 := rfl
  have hlen : b.len = more := by
    unfold Block.len
    omega
  simp only [gives_bind]
  refine gives_mono (gives_mallocSbrk h env.more more) ?_
  rintro p t (⟨rfl, rfl⟩ | ⟨rfl, hlt, rfl⟩)
  · exact (gives_pure _).2 (.inl ⟨rfl, rfl⟩)
  · have hheader : header (lastLen Block.len 0 bs) b =
        { prevblock := lastLen Block.len 0 bs / 8, pad := 0, magic1 := mmagic
          nextblock := mMkfield more, inuse := true, magic2 := mmagic } := by
      have : mMkfield more = b.data + 1 := by rw [← hlen, mMkfield_len]
      rw [this]
      rfl
    have htop := h.top
    have ht := (show Tiled s (bs ++ []) by rwa [List.append_nil]).grow (n := [b])
      (Function.update s.mem s.heaptop (header (lastLen Block.len 0 bs) b))
      (by simp [hlen]) hlt ⟨by simp [Holds, htop], trivial⟩
      fun a ha => Function.update_of_ne (by omega) _ _
    have hp : s.heaptop = s.heapbase + total Block.len bs := htop
    simp only [writeHeader, gives_bind, gives_modify, ← hheader]
    have hgives : Gives ok _ (fun p u => Allocates s bs k p u) _ := gives_take_top ht (by omega) (by omega) hs rfl
      (fun y d => Iff.rfl) rfl
    simp only [gives_bind, ← hp] at hgives
    exact gives_mono hgives fun a t ht => gives_mono ht fun q u hu => .inr hu

/-- What has to be added to a row in which `k` units do not fit. -/
def space (bs : List Block) (k : Nat) : Nat :=
  match bs.getLast? with
  | some b => if b.inuse then 8 * k + 8 else 8 * (k - b.data)
  | none => 8 * k + 8

theorem space_le (bs : List Block) (k : Nat) : space bs k ≤ 8 * k + 8 := by
  unfold space
  split
  · split_ifs <;> omega
  · exact Nat.le_refl _

theorem space_concat : space (l ++ [b]) k = if b.inuse then 8 * k + 8 else 8 * (k - b.data) := by
  rw [space, List.getLast?_concat]

/-- A free block that is the last one grows. -/
theorem gives_growTop (h : Tiled s (l ++ [b])) (hs : Separated (l ++ [b])) (hfree : b.inuse = false)
    (hlt : b.data < k) (hk : 8 * k < 2 ^ 32) (hspace : 8 * (k - b.data) + 4095 < 2 ^ 32)
    (env : SbrkEnv) :
    Gives ok (growTop env (8 * k) (s.heapbase + total Block.len l)
      (header (lastLen Block.len 0 l) b)) (Answers s (l ++ [b]) k) s := by
  have hend := h.end_le
  have hsmall := h.small
  have hblen : b.len = 8 * (b.data + 1) := rfl
  have hsize : mSize (header (lastLen Block.len 0 l) b) = 8 * b.data := mSize_header (by omega)
  have hsub : subSize (8 * k) (8 * b.data) = 8 * (k - b.data) := by
    rw [subSize_eq (by omega) (by omega)]
    omega
  obtain ⟨hle, hmod⟩ := roundPages_spec hspace
  unfold growTop
  rw [hsize, if_neg (not_not.2 (by omega)), hsub]
  set more := roundPages (8 * (k - b.data)) with hmore
  set c : Block := { data := b.data + more / 8, inuse := true } with hc
  have hdata : c.data = b.data + more / 8 := rfl
  have hlen : c.len = b.len + more := by
    unfold Block.len
    omega
  simp only [gives_bind]
  refine gives_mono (gives_mallocSbrk h env.more more) ?_
  rintro p t (⟨rfl, rfl⟩ | ⟨rfl, htop, rfl⟩)
  · exact (gives_pure _).2 (.inl ⟨rfl, rfl⟩)
  · have hfield : mMkfield (addSize (mNextoff (header (lastLen Block.len 0 l) b)) more) =
        c.data + 1 := by
      rw [mNextoff_header (by omega), addSize_eq (by omega), ← hlen, mMkfield_len]
    have ht := h.grow (n := [c])
      (Function.update s.mem (s.heapbase + total Block.len l)
        (header (lastLen Block.len 0 l) c))
      (by simp [hlen]) htop ⟨by simp [Holds], trivial⟩
      fun a ha => Function.update_of_ne (by omega) _ _
    have hl : Separated l := ((separated_append_free hfree).1 hs).1.1
    simp only [readHeader, writeHeader, gives_bind, gives_get, gives_pure, gives_modify, h.mem_eq,
      hfield]
    have hgives : Gives ok _ (fun p u => Allocates s (l ++ [b]) k p u) _ := gives_take_top ht (by omega) (by omega) hl rfl
      (fun y d => used_concat_free hfree) rfl
    simp only [gives_bind, gives_pure] at hgives
    exact gives_mono hgives fun a t ht => .inr ht

theorem gives_expand (h : Tiled s bs) (hs : Sound bs) (hfit : ∀ b ∈ bs, ¬ b.fits k)
    (hk : 8 * k < 2 ^ 32) (hspace : space bs k + 4095 < 2 ^ 32) (env : SbrkEnv) :
    Gives ok (expand env (8 * k) (lastLen Block.len 0 bs / 8) (lastStart s.heapbase bs))
      (Answers s bs k) s := by
  unfold expand
  rcases List.eq_nil_or_concat bs with hnil | ⟨l, b, hbs⟩
  · rw [hnil] at h hs hspace
    simp only [hnil, lastStart_nil, freeTop, gives_bind, gives_pure]
    exact gives_newTop h hs.separated hspace env
  · rw [List.concat_eq_append] at hbs
    subst hbs
    rw [space_concat] at hspace
    simp only [lastStart_concat, freeTop, readHeader, gives_bind, gives_get, gives_pure, h.mem_eq,
      inuse_header]
    by_cases hb : b.inuse = true
    · rw [if_pos hb] at hspace
      rw [if_pos hb, gives_pure]
      exact gives_newTop h hs.separated hspace env
    · rw [if_neg hb] at hspace
      have hfree : b.inuse = false := by simpa using hb
      have hlt : b.data < k := by
        by_contra hle
        exact hfit b (by simp) ⟨hfree, by omega⟩
      rw [if_neg hb, gives_pure]
      exact gives_growTop h hs.separated hfree hlt hk hspace env

/-- Neither rounding of the request wraps around: to whole blocks, and with its header to whole
pages. -/
def Rounds (size : Nat) : Prop :=
  size + (mblocksize - 1) < 2 ^ 32 ∧ mblocksize + roundBlocks size + (pageSize - 1) < 2 ^ 32

/-- The units of a request. -/
def units (size : Nat) : Nat := (size + 7) / 8

theorem roundBlocks_eq {size : Nat} (h : size + 7 < 2 ^ 32) : roundBlocks size = 8 * units size := by
  unfold roundBlocks units mblocksize
  rw [addSize_eq h, Nat.mul_comm]

theorem Rounds.space {size : Nat} (h : Rounds size) (bs : List Block) :
    Libc.space bs (units size) + 4095 < 2 ^ 32 := by
  have h' := h.2
  rw [roundBlocks_eq h.1] at h'
  unfold mblocksize pageSize at h'
  have hle := space_le bs (units size)
  omega

/-- The block that the search finds is handed out. -/
theorem allocates_take {t : Heap} (hs : Sound (l ++ b :: r)) (hb : b.fits k)
    (hbase : t.heapbase = s.heapbase) (ht : Tiled t (l ++ takenHead k b :: (takenTail k b ++ r))) :
    Allocates s (l ++ b :: r) k (s.heapbase + total Block.len l + 8) t := by
  obtain ⟨hfree, hk⟩ := hb
  obtain ⟨⟨hl, -⟩, hhead, hr⟩ := (separated_append_free hfree).1 hs.separated
  refine ⟨_, _, takenHead k b, rfl, hbase, ht,
    sound_taken hl hr hhead (topFilled_append_cons.1 hs.topFilled), le_takenHead hk,
    fun y d => used_taken hk hfree, fun d hd => ?_⟩
  have hat : At Block.len s.heapbase (l ++ b :: r) (s.heapbase + total Block.len l) b :=
    at_append.2 (.inr (.inl ⟨rfl, rfl⟩))
  have := b.len_pos
  have := d.len_pos
  rcases hd.1.apart hat with ⟨-, rfl⟩ | h | h
  · exact absurd hd.2 (by simp [hfree])
  · omega
  · omega

/-- The search of `malloc`, and what is done with the block that it finds or at the top. -/
theorem gives_mallocReady_of {P : Nat → Heap → Prop} (h : Tiled s bs) {size : Nat} (env : SbrkEnv)
    (hround : roundBlocks size = 8 * k)
    (hfound : ∀ l b r, bs = l ++ b :: r → b.fits k → ∀ t,
      t.heapbase = s.heapbase → Tiled t (l ++ takenHead k b :: (takenTail k b ++ r)) →
      P (s.heapbase + total Block.len l + 8) t)
    (hended : (∀ b ∈ bs, ¬ b.fits k) →
      Gives ok (expand env (8 * k) (lastLen Block.len 0 bs / 8) (lastStart s.heapbase bs)) P s) :
    Gives ok (mallocReady size env) P s := by
  have hbase := h.base
  have htop := h.top
  have hlen : bs.length ≤ total Block.len bs := by
    clear h hfound hended htop
    induction bs with
    | nil => exact Nat.le_refl 0
    | cons b bs ih =>
        have := b.len_pos
        rw [List.length_cons, total_cons]
        omega
  unfold mallocReady
  simp only [gives_bind, gives_get]
  rw [if_neg (by omega), hround]
  simp only [gives_bind]
  have hsearch : Gives ok (search (8 * k) (s.heaptop - s.heapbase + 1) s.heapbase 0 none)
      _ s := gives_search (l := []) (r := bs) h (by omega)
  refine gives_mono hsearch ?_
  rintro f t ⟨rfl, hf⟩
  cases hf with
  | @found l' r' b hbs hfits =>
      subst hbs
      refine gives_mono (gives_take h hfits.2) ?_
      rintro p u ⟨rfl, hu, ht⟩
      exact hfound l' b r' rfl hfits u hu ht
  | ended hall => exact hended hall

theorem gives_mallocReady (h : Tiled s bs) (hs : Sound bs) {size : Nat} (hsize : size + 7 < 2 ^ 32)
    (hspace : (∀ b ∈ bs, ¬ b.fits (units size)) → space bs (units size) + 4095 < 2 ^ 32)
    (env : SbrkEnv) : Gives ok (mallocReady size env) (Answers s bs (units size)) s := by
  refine gives_mallocReady_of h env (roundBlocks_eq hsize) (fun l b r hbs hfits t hbase ht => ?_)
    fun hall => ?_
  · subst hbs
    exact .inr (allocates_take hs hfits hbase ht)
  · have hunits : 8 * units size < 2 ^ 32 := by
      unfold units
      omega
    exact gives_expand h hs hall hunits (hspace hall) env

/-! ## Merging -/

/-- A free block and the block behind it, after the merge. -/
theorem merge_next (hb : b.inuse = false) (hr : Separated (c :: r)) (htop : TopFilled (c :: r)) :
    ∃ b' r', merge b c ++ r = b' :: r' ∧ b'.inuse = false ∧ (∀ d ∈ r'.head?, d.inuse = true) ∧
      Separated r' ∧ TopFilled (b' :: r') := by
  unfold merge
  by_cases hc : c.inuse = true
  · rw [if_pos (.inr hc)]
    exact ⟨b, c :: r, rfl, hb, fun d hd => by simpa [← Option.some.inj hd] using hc, hr,
      topFilled_cons_cons.2 htop⟩
  · have hfree : c.inuse = false := by simpa using hc
    rw [if_neg (by simp [hb, hfree])]
    obtain ⟨hhead, hr⟩ := (separated_cons_free hfree).1 hr
    refine ⟨_, r, rfl, rfl, hhead, hr, TopFilled.cons (fun _ => htop) fun _ => ?_⟩
    exact Nat.succ_pos _

/-- A free block and the block before it, after the merge. -/
theorem merge_previous (hb : b.inuse = false) (hl : Separated (l ++ [c])) (hr : Separated r)
    (hhead : ∀ d ∈ r.head?, d.inuse = true) (htop : TopFilled (b :: r)) :
    Sound (l ++ (merge c b ++ r)) := by
  unfold merge
  by_cases hc : c.inuse = true
  · rw [if_pos (.inl hc)]
    have hl' : Separated l := ((separated_append_used hc).1 hl).1
    refine ⟨(separated_append_used hc).2 ⟨hl', (separated_cons_free hb).2 ⟨hhead, hr⟩⟩, ?_⟩
    exact topFilled_append_cons.2 (topFilled_cons_cons.2 htop)
  · have hfree : c.inuse = false := by simpa using hc
    rw [if_neg (by simp [hb, hfree])]
    refine ⟨(separated_append_free rfl).2 ⟨((separated_append_free hfree).1 hl).1, hhead, hr⟩, ?_⟩
    exact topFilled_append_cons.2 (TopFilled.cons (fun _ => htop) fun _ => Nat.succ_pos _)

/-- The row is sound again, and the used blocks are where they were. -/
def Merged (s : Heap) (bs : List Block) (t : Heap) : Prop :=
  t.heapbase = s.heapbase ∧ ∃ bs', Tiled t bs' ∧ Sound bs' ∧
    ∀ y d, Used s.heapbase bs' y d ↔ Used s.heapbase bs y d

theorem Merged.trans {t u : Heap} {bs' : List Block} (h : Merged t bs' u)
    (hbase : t.heapbase = s.heapbase)
    (hused : ∀ y d, Used s.heapbase bs' y d ↔ Used s.heapbase bs y d) : Merged s bs u := by
  obtain ⟨hbase', bs'', ht, hs, hu⟩ := h
  rw [hbase] at hbase' hu
  exact ⟨hbase', bs'', ht, hs, fun y d => (hu y d).trans (hused y d)⟩

theorem gives_mergeBelow (h : Tiled s (l ++ b :: r)) (hb : b.inuse = false) (hl : Separated l)
    (hr : Separated r) (hhead : ∀ d ∈ r.head?, d.inuse = true) (htop : TopFilled (b :: r)) :
    Gives ok (mergeBelow (s.heapbase + total Block.len l)) (fun _ t => Merged s (l ++ b :: r) t)
      s := by
  simp only [mergeBelow, gives_bind, gives_get]
  rcases List.eq_nil_or_concat l with rfl | ⟨l, c, hbs⟩
  · rw [total_nil, Nat.add_zero, if_neg (not_not.2 rfl), gives_pure]
    refine ⟨rfl, _, h, ⟨?_, htop⟩, fun y d => Iff.rfl⟩
    exact (separated_cons_free hb).2 ⟨hhead, hr⟩
  · rw [List.concat_eq_append] at hbs
    subst hbs
    have hend := h.end_le
    have hsmall := h.small
    have hpos := c.len_pos
    have htotal : total Block.len (l ++ [c]) = total Block.len l + c.len := by simp
    rw [htotal] at hend
    have hprev : mPrev (s.heapbase + total Block.len (l ++ [c])) (header c.len b) =
        s.heapbase + total Block.len l := by
      rw [mPrev, mPrevoff_header (by omega), subSize_eq (by omega) (by omega)]
      omega
    have hmem : s.mem (s.heapbase + total Block.len (l ++ [c])) = header c.len b := by
      rw [h.mem_eq, lastLen_append_cons, lastLen_nil]
    have hrow : (l ++ [c]) ++ b :: r = l ++ c :: b :: r := by simp
    rw [if_pos (by omega)]
    simp only [readHeader, gives_bind, gives_get, gives_pure, hmem, hprev]
    rw [htotal, ← Nat.add_assoc]
    rw [hrow] at h ⊢
    refine gives_mono (gives_mallocTrymerge h) ?_
    rintro _ _ ⟨mem, rfl, ht⟩
    refine ⟨rfl, _, ht, merge_previous hb hl hr hhead htop, fun y d => ?_⟩
    exact used_replace (m := [c, b]) (by rw [total_merge]; rfl) fun a x d => used_merge

/-- Both merges of `free`. -/
theorem gives_merges (h : Tiled s (l ++ b :: r)) (hb : b.inuse = false) (hl : Separated l)
    (hr : Separated r) (htop : TopFilled (b :: r)) :
    Gives ok (do
        mergeAbove (s.heapbase + total Block.len l)
        mergeBelow (s.heapbase + total Block.len l))
      (fun _ t => Merged s (l ++ b :: r) t) s := by
  have hend := h.end_le
  have hsmall := h.small
  have hnext : mNext (s.heapbase + total Block.len l) (header (lastLen Block.len 0 l) b) =
      s.heapbase + total Block.len l + b.len := mNext_header (by omega)
  simp only [mergeAbove, readHeader, gives_bind, gives_get, gives_pure, h.mem_eq, hnext]
  by_cases hnil : r = []
  · subst hnil
    rw [if_neg (fun hne => h.next_ne_top.1 hne rfl), gives_pure]
    exact gives_mergeBelow h hb hl separated_nil (by simp) htop
  · rw [if_pos (h.next_ne_top.2 hnil)]
    obtain ⟨c, r, rfl⟩ := List.exists_cons_of_ne_nil hnil
    refine gives_mono (gives_mallocTrymerge h) ?_
    rintro _ _ ⟨mem, rfl, ht⟩
    obtain ⟨b', r', hrow, hb', hhead, hr', htop'⟩ :=
      merge_next hb hr (topFilled_cons_cons.1 htop)
    have hused : ∀ y d, Used s.heapbase (l ++ b' :: r') y d ↔
        Used s.heapbase (l ++ b :: c :: r) y d := fun y d => by
      rw [← hrow]
      exact used_replace (m := [b, c]) (by rw [total_merge]; rfl) fun a x d => used_merge
    rw [hrow] at ht
    exact gives_mono (gives_mergeBelow ht hb' hl hr' hhead htop') fun _ u hu =>
      Merged.trans (s := s) hu rfl hused

/-- The data of a block may change. -/
theorem Tiled.store (h : Tiled s (l ++ b :: r)) {mem : Nat → Mheader}
    (hsame : ∀ a, a < s.heapbase + total Block.len l + 8 ∨
      s.heapbase + total Block.len l + b.len ≤ a → mem a = s.mem a) :
    Tiled { s with mem := mem } (l ++ b :: r) := by
  have hlen : b.len = 8 * (b.data + 1) := rfl
  refine Tiled.replace (m := [b]) (n := [b]) h rfl ⟨?_, trivial⟩ ?_ ?_
  · exact (hsame _ (.inl (by omega))).trans h.mem_eq
  · rintro c r' rfl
    rw [total_cons, total_nil, Nat.add_zero, hsame _ (.inr (by omega))]
    exact h.mem_next
  · intro a ha
    rw [total_cons, total_nil] at ha
    exact hsame a (by omega)

theorem separated_parts (h : Separated (l ++ b :: r)) : Separated l ∧ Separated r := by
  unfold Separated at *
  rw [List.isChain_append, List.isChain_cons] at h
  exact ⟨h.1, h.2.1.2⟩

/-- One used block is marked as free. -/
theorem used_freed (hb : b.inuse = true) :
    Used a (l ++ { b with inuse := false } :: r) y d ↔
      Used a (l ++ b :: r) y d ∧ y ≠ a + total Block.len l := by
  have hlen : ({ b with inuse := false } : Block).len = b.len := rfl
  have hpos := b.len_pos
  simp only [used_append, used_cons, hlen, hb, and_true, Bool.false_eq_true, and_false, false_or]
  constructor
  · rintro (h | h)
    · have := h.1.bounds
      have := d.len_pos
      exact ⟨.inl h, by omega⟩
    · have := h.1.bounds
      exact ⟨.inr (.inr h), by omega⟩
  · rintro ⟨h | ⟨rfl, -⟩ | h, hne⟩
    · exact .inl h
    · exact absurd rfl hne
    · exact .inr h

theorem gives_free (h : Tiled s bs) (hs : Sound bs) (hused : Used s.heapbase bs x b) :
    Gives ok (free (x + 8)) (fun _ t => t.heapbase = s.heapbase ∧ ∃ bs', Tiled t bs' ∧ Sound bs' ∧
      ∀ y d, Used s.heapbase bs' y d ↔ Used s.heapbase bs y d ∧ y ≠ x) s := by
  obtain ⟨hat, hin⟩ := hused
  obtain ⟨l, r, rfl, rfl⟩ := hat.split
  have hbase := h.base
  have hend := h.end_le
  have hsmall := h.small
  have hlen : b.len = 8 * (b.data + 1) := rfl
  have hdata : s.heapbase + total Block.len l + 8 < s.heaptop := by
    have htop : TopFilled (b :: r) := topFilled_append_cons.1 hs.topFilled
    cases r with
    | nil =>
        have : 0 < b.data := htop b rfl
        omega
    | cons c r =>
        have := c.len_pos
        rw [total_cons] at hend
        omega
  have hmb : mblocksize = 8 := rfl
  have hmh : subSize (s.heapbase + total Block.len l + 8) mblocksize =
      s.heapbase + total Block.len l := by
    rw [subSize_eq (by omega) (by omega)]
    omega
  have hsize : mSize (header (lastLen Block.len 0 l) b) = 8 * b.data := mSize_header (by omega)
  have hmark : { header (lastLen Block.len 0 l) b with inuse := false } =
      header (lastLen Block.len 0 l) { b with inuse := false } := rfl
  have hmarked := h.write (c := { b with inuse := false }) rfl
  have hmdata : mData (s.heapbase + total Block.len l) = s.heapbase + total Block.len l + 8 :=
    mData_eq (by omega)
  rw [free, if_neg (by omega)]
  simp only [gives_bind, gives_get]
  rw [if_neg (by omega), if_neg (by omega)]
  simp only [readHeader, writeHeader, gives_bind, gives_get, gives_pure, hmh, h.mem_eq]
  rw [if_neg (by simp), if_neg (by simp [hin])]
  simp only [gives_bind, gives_modify, hmark, hmdata, hsize]
  refine gives_mono (gives_mallocDeadbeef (by omega)) ?_
  rintro _ _ ⟨mem, rfl, hsame⟩
  have ht := hmarked.store (s := { s with mem := Function.update s.mem _ _ }) fun a ha =>
    hsame a <| by
      have ha' : a < s.heapbase + total Block.len l + 8 ∨
        s.heapbase + total Block.len l + b.len ≤ a := ha
      omega
  obtain ⟨hl, hr⟩ := separated_parts hs.separated
  have htop : TopFilled ({ b with inuse := false } :: r) :=
    TopFilled.cons (fun _ => topFilled_append_cons.1 hs.topFilled) fun hnil => by
      have htop := topFilled_append_cons.1 hs.topFilled
      rw [hnil] at htop
      exact htop b rfl
  have hmerges : Gives ok _ _ _ := gives_merges ht rfl hl hr htop
  rw [gives_bind] at hmerges
  refine gives_mono hmerges fun _ u hu => gives_mono hu ?_
  rintro _ v ⟨hv, bs', htv, hsv, husedv⟩
  exact ⟨hv, bs', htv, hsv, fun y d => (husedv y d).trans (used_freed hin)⟩

end Os161.Libc
