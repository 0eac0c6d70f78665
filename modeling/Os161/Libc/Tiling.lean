import Os161.Lib.Tiles
import Os161.Libc.Malloc

set_option autoImplicit false

/-!
# The heap as a row of blocks

`Tiled s bs`: the headers in the memory of `s` are those of the blocks `bs`, laid side by side from
`__heapbase` to `__heaptop`. A block is given by the number of its data units, of eight bytes each,
so that every size is a whole number of units. For each function there is one lemma that says how
it changes the row.
-/

namespace Os161.Libc

open Os161.Lib.Calls
open Os161.Lib.Tiles

/-- A block with `data` units of eight bytes behind its header. -/
structure Block where
  data : Nat
  inuse : Bool
  deriving DecidableEq

/-- The length of a block, with its header. -/
def Block.len (b : Block) : Nat := 8 * (b.data + 1)

/-- The header of a block behind a block of length `prev`. -/
def header (prev : Nat) (b : Block) : Mheader :=
  { prevblock := prev / 8, pad := 0, magic1 := mmagic, nextblock := b.data + 1, inuse := b.inuse
    magic2 := mmagic }

/-- The header of the block stands at its address. -/
def Holds (mem : Nat → Mheader) (a prev : Nat) (b : Block) : Prop := mem a = header prev b

/-- The blocks fill the heap. -/
structure Tiled (s : Heap) (bs : List Block) : Prop where
  base : 0 < s.heapbase
  laid : Laid Block.len (Holds s.mem) s.heapbase 0 bs
  top : s.heaptop = s.heapbase + total Block.len bs
  brk : s.brk = s.heaptop
  small : s.heaptop < 2 ^ 32

variable {s : Heap} {l m n r bs : List Block} {b c : Block} {x prev k : Nat} {ok : Exit → Prop}

theorem Block.len_pos (b : Block) : 0 < b.len := by
  unfold len
  omega

/-! ## Headers -/

theorem addSize_eq {a b : Nat} (h : a + b < 2 ^ 32) : addSize a b = a + b :=
  Nat.mod_eq_of_lt h

theorem subSize_eq {a b : Nat} (hb : b ≤ a) (ha : a < 2 ^ 32) : subSize a b = a - b := by
  unfold subSize
  omega

theorem mNextoff_header (h : b.len < 2 ^ 32) : mNextoff (header prev b) = b.len := by
  unfold Block.len at *
  simp only [mNextoff, header]
  omega

theorem mPrevoff_header (h : c.len < 2 ^ 32) : mPrevoff (header c.len b) = c.len := by
  unfold Block.len at *
  simp only [mPrevoff, header]
  omega

theorem mNext_header (h : x + b.len < 2 ^ 32) : mNext x (header prev b) = x + b.len := by
  rw [mNext, mNextoff_header (by omega), addSize_eq h]

theorem mSize_header (h : b.len < 2 ^ 32) : mSize (header prev b) = 8 * b.data := by
  have hlen : b.len = 8 * (b.data + 1) := rfl
  rw [mSize, mNextoff_header h, subSize_eq (by unfold mblocksize; omega) h]
  unfold mblocksize
  omega

@[simp] theorem mOk_header : mOk (header prev b) = true := rfl

@[simp] theorem inuse_header : (header prev b).inuse = b.inuse := rfl

theorem mMkfield_len : mMkfield b.len = b.data + 1 := by
  unfold mMkfield Block.len
  omega

/-- The header of a block whose length changes. -/
theorem header_nextblock (d : Nat) :
    { header prev b with nextblock := d + 1 } = header prev { b with data := d } := rfl

/-- The header of a block whose predecessor changes. -/
theorem header_prevblock : { header prev b with prevblock := c.data + 1 } = header c.len b := by
  have : c.len / 8 = c.data + 1 := by
    unfold Block.len
    omega
  simp only [header, this]

/-! ## The row -/

/-- The block in the middle of the row. -/
theorem Tiled.mem_eq (h : Tiled s (l ++ b :: r)) :
    s.mem (s.heapbase + total Block.len l) = header (lastLen Block.len 0 l) b :=
  (laid_append.1 h.laid).2.1

theorem Tiled.end_le (h : Tiled s (l ++ b :: r)) :
    s.heapbase + total Block.len l + b.len + total Block.len r = s.heaptop := by
  rw [h.top]
  simp only [total_append, total_cons]
  omega

/-- The block behind the one in the middle. -/
theorem Tiled.mem_next (h : Tiled s (l ++ b :: c :: r)) :
    s.mem (s.heapbase + total Block.len l + b.len) = header b.len c :=
  (laid_append.1 h.laid).2.2.1

/-- The part `m` of the row is replaced by `n`, which takes up the same room. Nothing else changes
but the header behind it. -/
theorem Tiled.replace (h : Tiled s (l ++ (m ++ r))) {mem' : Nat → Mheader}
    (hlen : total Block.len n = total Block.len m)
    (hm' : Laid Block.len (Holds mem') (s.heapbase + total Block.len l) (lastLen Block.len 0 l) n)
    (hnext : ∀ c r', r = c :: r' →
      mem' (s.heapbase + total Block.len l + total Block.len m) =
        header (lastLen Block.len (lastLen Block.len 0 l) n) c)
    (hsame : ∀ a, a < s.heapbase + total Block.len l ∨
      s.heapbase + total Block.len l + total Block.len m < a → mem' a = s.mem a) :
    Tiled { s with mem := mem' } (l ++ (n ++ r)) := by
  obtain ⟨hl, hmr⟩ := laid_append.1 h.laid
  obtain ⟨-, hr⟩ := laid_append.1 hmr
  refine ⟨h.base, laid_append.2 ⟨?_, laid_append.2 ⟨hm', ?_⟩⟩, ?_, h.brk, h.small⟩
  · -- the blocks before it
    refine hl.congr fun a q d hat hd => ?_
    have := hat.bounds
    have := d.len_pos
    exact (hsame a (.inl (by omega))).trans hd
  · -- the blocks behind it
    rw [hlen]
    cases r with
    | nil => trivial
    | cons c r' =>
        refine ⟨hnext c r' rfl, hr.2.congr fun a q d hat hd => ?_⟩
        have := hat.bounds
        have := c.len_pos
        exact (hsame a (.inr (by omega))).trans hd
  · show s.heaptop = _
    rw [h.top]
    simp only [total_append, hlen]

/-- The header at the top is not followed by another one. -/
theorem Tiled.next_ne_top (h : Tiled s (l ++ b :: r)) :
    s.heapbase + total Block.len l + b.len ≠ s.heaptop ↔ r ≠ [] := by
  have hend := h.end_le
  cases r with
  | nil => simpa using hend
  | cons c r' =>
      have := c.len_pos
      rw [total_cons] at hend
      refine iff_of_true (by omega) (List.cons_ne_nil _ _)

/-- A block is replaced by another one of the same length. -/
theorem Tiled.write (h : Tiled s (l ++ b :: r)) (hdata : c.data = b.data) :
    Tiled { s with
        mem := Function.update s.mem (s.heapbase + total Block.len l)
          (header (lastLen Block.len 0 l) c) }
      (l ++ c :: r) := by
  have hlen : c.len = b.len := by rw [Block.len, Block.len, hdata]
  have hpos := b.len_pos
  refine Tiled.replace (m := [b]) (n := [c]) h (by simp [hlen]) ⟨?_, trivial⟩ ?_ ?_
  · rw [Holds, Function.update_self]
  · rintro d r' rfl
    rw [total_cons, total_nil, Nat.add_zero, Function.update_of_ne (by omega), h.mem_next, lastLen,
      lastLen, hlen]
  · intro a ha
    rw [total_cons, total_nil] at ha
    exact Function.update_of_ne (by omega) _ _

/-! ## __malloc_split -/

/-- What is left of a block that is cut off behind `k` units. -/
def cut (k : Nat) (b : Block) : List Block :=
  if b.data - k < 2 then [b]
  else [{ b with data := k }, { data := b.data - k - 1, inuse := false }]

theorem total_cut (hk : k ≤ b.data) : total Block.len (cut k b) = b.len := by
  unfold cut
  split_ifs with h
  · simp
  · simp only [total_cons, total_nil, Block.len]
    omega

theorem gives_mallocSplit (h : Tiled s (l ++ b :: r)) (hk : k ≤ b.data) :
    Gives ok (mallocSplit (s.heapbase + total Block.len l) (8 * k))
      (fun _ t => ∃ mem, t = { s with mem := mem } ∧ Tiled t (l ++ (cut k b ++ r))) s := by
  have hend := h.end_le
  have hsmall := h.small
  have hlen : b.len = 8 * (b.data + 1) := rfl
  set x := s.heapbase + total Block.len l with hx
  have hmem : s.mem x = header (lastLen Block.len 0 l) b := h.mem_eq
  have hsize : mSize (s.mem x) = 8 * b.data := by rw [hmem, mSize_header (by omega)]
  have hrest : subSize (8 * b.data) (8 * k) = 8 * (b.data - k) := by
    rw [subSize_eq (by omega) (by omega)]
    omega
  have hmult : 8 * k % mblocksize = 0 := by
    unfold mblocksize
    omega
  unfold mallocSplit
  rw [if_neg (not_not.2 hmult)]
  simp only [readHeader, gives_bind, gives_get, gives_pure, hsize, hrest]
  by_cases hroom : b.data - k < 2
  · -- there is no room for another block
    rw [if_pos (by unfold mblocksize; omega), gives_pure, cut, if_pos hroom]
    exact ⟨s.mem, rfl, h⟩
  · rw [if_neg (by unfold mblocksize; omega)]
    set kept : Block := { b with data := k } with hkept
    set rest : Block := { data := b.data - k - 1, inuse := false } with hrestdef
    have hcut : cut k b = [kept, rest] := if_neg hroom
    have hklen : kept.len = 8 * (k + 1) := rfl
    have hrlen : rest.len = 8 * (b.data - k - 1 + 1) := rfl
    have hfield : mMkfield (addSize (8 * k) mblocksize) = kept.data + 1 := by
      rw [addSize_eq (by unfold mblocksize; omega)]
      exact mMkfield_len (b := kept)
    have hfield' : mMkfield (8 * (b.data - k)) = rest.data + 1 := by
      unfold mMkfield
      change 8 * (b.data - k) / 8 = b.data - k - 1 + 1
      omega
    have hfirst : { s.mem x with nextblock := mMkfield (addSize (8 * k) mblocksize) } =
        header (lastLen Block.len 0 l) kept := by
      rw [hmem, hfield, header_nextblock]
    have hnext : mNext x (s.mem x) = x + b.len := by rw [hmem, mNext_header (by omega)]
    have hnew : mNext x (header (lastLen Block.len 0 l) kept) = x + kept.len :=
      mNext_header (by omega)
    have hsecond : header kept.len rest =
        { prevblock := mMkfield (addSize (8 * k) mblocksize), pad := 0, magic1 := mmagic
          nextblock := mMkfield (8 * (b.data - k)), inuse := false, magic2 := mmagic } := by
      rw [hfield, hfield', ← mMkfield_len]
      rfl
    simp only [writeHeader, gives_bind, gives_modify, gives_get, gives_pure, hfirst, hnext,
      Function.update_self, hnew, gives_ite, gives_halt, ← hsecond]
    have hne : x + kept.len ≠ x + b.len := by omega
    refine ⟨fun he => absurd he hne, fun _ => ⟨fun hr => ?_, fun hr => ?_⟩⟩
    · obtain ⟨c, r', rfl⟩ := List.exists_cons_of_ne_nil (h.next_ne_top.1 hr)
      have hc : s.mem (x + b.len) = header b.len c := h.mem_next
      refine ⟨_, rfl, ?_⟩
      rw [hcut]
      refine Tiled.replace (m := [b]) h (by simp [← hcut, total_cut hk]) ⟨?_, ?_, trivial⟩ ?_ ?_
      · rw [Holds, ← hx, Function.update_of_ne (by omega), Function.update_of_ne (by omega),
          Function.update_self]
      · rw [Holds, ← hx, Function.update_of_ne (by omega), Function.update_self]
      · rintro d r'' hd
        obtain ⟨rfl, rfl⟩ := List.cons.inj hd
        rw [← hx, total_cons, total_nil, Nat.add_zero, Function.update_self,
          Function.update_of_ne hne.symm, Function.update_of_ne (by omega), hc]
        exact header_prevblock
      · intro a ha
        rw [← hx, total_cons, total_nil] at ha
        rw [Function.update_of_ne (by omega), Function.update_of_ne (by omega),
          Function.update_of_ne (by omega)]
    · have hnil : r = [] := by
        by_contra hne'
        exact hr (h.next_ne_top.2 hne')
      refine ⟨_, rfl, ?_⟩
      rw [hcut]
      refine Tiled.replace (m := [b]) h (by simp [← hcut, total_cut hk]) ⟨?_, ?_, trivial⟩ ?_ ?_
      · rw [Holds, ← hx, Function.update_of_ne (by omega), Function.update_self]
      · rw [Holds, ← hx, Function.update_self]
      · intro d r'' hd
        rw [hnil] at hd
        cases hd
      · intro a ha
        rw [← hx, total_cons, total_nil] at ha
        rw [Function.update_of_ne (by omega), Function.update_of_ne (by omega)]

/-! ## The search -/

/-- The address of the last block of a row from `a` on. -/
def lastStart (a : Nat) (bs : List Block) : Option Nat :=
  if bs = [] then none else some (a + total Block.len bs.dropLast)

@[simp] theorem lastStart_nil (a : Nat) : lastStart a [] = none := rfl

@[simp] theorem lastStart_concat (a : Nat) (l : List Block) (b : Block) :
    lastStart a (l ++ [b]) = some (a + total Block.len l) := by
  simp [lastStart]

/-- The block is free and has room for `k` units. -/
def Block.fits (b : Block) (k : Nat) : Prop := b.inuse = false ∧ k ≤ b.data

/-- What the search finds in the row `l ++ r` when it begins at `r`. -/
inductive Finds (a k : Nat) (l r : List Block) : Search → Prop where
  | found {l' r' : List Block} {b : Block} : r = l' ++ b :: r' → b.fits k →
      Finds a k l r (.found (a + total Block.len (l ++ l')))
  | ended : (∀ b ∈ r, ¬ b.fits k) →
      Finds a k l r (.ended (lastLen Block.len 0 (l ++ r) / 8) (lastStart a (l ++ r)))

theorem gives_search : ∀ {r l : List Block} {fuel : Nat}, Tiled s (l ++ r) → r.length < fuel →
    Gives ok (search (8 * k) fuel (s.heapbase + total Block.len l) (lastLen Block.len 0 l / 8)
      (lastStart s.heapbase l)) (fun f t => t = s ∧ Finds s.heapbase k l r f) s
  | [], l, fuel + 1, h, _ => by
      have htop := h.top
      rw [List.append_nil] at htop
      simp only [search, gives_bind, gives_get, ← htop]
      rw [if_neg (Nat.lt_irrefl _), if_neg (not_not.2 rfl), gives_pure]
      have hended : Finds s.heapbase k l [] (.ended (lastLen Block.len 0 (l ++ []) / 8)
        (lastStart s.heapbase (l ++ []))) := .ended (by simp)
      rw [List.append_nil] at hended
      exact ⟨rfl, hended⟩
  | b :: r, l, fuel + 1, h, hfuel => by
      have hend := h.end_le
      have hsmall := h.small
      have hpos := b.len_pos
      have hsize : mSize (header (lastLen Block.len 0 l) b) = 8 * b.data := mSize_header (by omega)
      have hnext : mNext (s.heapbase + total Block.len l) (header (lastLen Block.len 0 l) b) =
          s.heapbase + total Block.len (l ++ [b]) := by
        rw [mNext_header (by omega)]
        simp only [total_append, total_cons, total_nil]
        omega
      have hprev : (header (lastLen Block.len 0 l) b).prevblock = lastLen Block.len 0 l / 8 := rfl
      have hfield : (header (lastLen Block.len 0 l) b).nextblock =
          lastLen Block.len 0 (l ++ [b]) / 8 := by
        rw [lastLen_append_cons, lastLen_nil]
        exact mMkfield_len.symm
      have hrow : l ++ b :: r = (l ++ [b]) ++ r := by simp
      simp only [search, readHeader, gives_bind, gives_get]
      rw [if_pos (by omega)]
      simp only [gives_bind, gives_get, gives_pure, h.mem_eq]
      rw [if_neg (by simp), if_neg (not_not.2 hprev), hsize, hnext, hfield, inuse_header]
      by_cases hfits : b.fits k
      · obtain ⟨hfree, hk⟩ := hfits
        rw [if_neg (by simp [hfree]; omega), gives_pure]
        refine ⟨rfl, ?_⟩
        have hfound : Finds s.heapbase k l (b :: r)
          (.found (s.heapbase + total Block.len (l ++ []))) := .found rfl ⟨hfree, hk⟩
        rwa [List.append_nil] at hfound
      · have hskip : b.inuse = true ∨ 8 * b.data < 8 * k := by
          by_cases hu : b.inuse = true
          · exact .inl hu
          · refine .inr ?_
            by_contra hle
            exact hfits ⟨by simpa using hu, by omega⟩
        rw [if_pos hskip, ← lastStart_concat]
        have hlen : r.length < fuel := by
          rw [List.length_cons] at hfuel
          omega
        -- the search goes on behind the block
        refine gives_mono (gives_search (hrow ▸ h) hlen) ?_
        rintro f t ⟨rfl, hf⟩
        refine ⟨rfl, ?_⟩
        cases hf with
        | @found l' r' c hr hc =>
            have hfound : Finds t.heapbase k l (b :: r)
              (.found (t.heapbase + total Block.len (l ++ b :: l'))) := .found (by rw [hr]; rfl) hc
            simpa using hfound
        | ended hall =>
            have hended : Finds t.heapbase k l (b :: r) (.ended
              (lastLen Block.len 0 (l ++ b :: r) / 8) (lastStart t.heapbase (l ++ b :: r))) :=
              .ended (by
                intro c hc
                rcases List.mem_cons.1 hc with rfl | hc
                · exact hfits
                · exact hall c hc)
            rwa [hrow] at hended

/-! ## __malloc_deadbeef and __malloc_trymerge -/

/-- Only the range that is wiped changes. -/
theorem gives_mallocDeadbeef {ptr size : Nat} (hsmall : ptr + size < 2 ^ 32) :
    Gives ok (mallocDeadbeef ptr size) (fun _ t => ∃ mem, t = { s with mem := mem } ∧
      ∀ a, a < ptr ∨ ptr + size ≤ a → mem a = s.mem a) s := by
  unfold mallocDeadbeef
  refine gives_forEach
    (fun is t => (∀ i ∈ is, 8 * i + 8 ≤ size) ∧ ∃ mem, t = { s with mem := mem } ∧
      ∀ a, a < ptr ∨ ptr + size ≤ a → mem a = s.mem a) ?_ (fun t ht => ht.2) ⟨?_, s.mem, rfl, ?_⟩
  · rintro i is _ ⟨hi, mem, rfl, hmem⟩
    have hi' := hi i List.mem_cons_self
    rw [writeHeader, gives_modify]
    refine ⟨fun j hj => hi j (List.mem_cons_of_mem i hj), _, rfl, fun a ha => ?_⟩
    rw [addSize_eq (by unfold mblocksize; omega), Function.update_of_ne (by unfold mblocksize; omega)]
    exact hmem a ha
  · intro i hi
    have := List.mem_range.1 hi
    unfold mblocksize at this
    omega
  · exact fun a _ => rfl

/-- What becomes of two neighbours. -/
def merge (b c : Block) : List Block :=
  if b.inuse ∨ c.inuse then [b, c] else [{ data := b.data + c.data + 1, inuse := false }]

theorem total_merge : total Block.len (merge b c) = b.len + c.len := by
  unfold merge
  split_ifs
  · rfl
  · simp only [total_cons, total_nil, Block.len]
    omega

theorem gives_mallocTrymerge (h : Tiled s (l ++ b :: c :: r)) :
    Gives ok (mallocTrymerge (s.heapbase + total Block.len l)
        (s.heapbase + total Block.len l + b.len))
      (fun _ t => ∃ mem, t = { s with mem := mem } ∧ Tiled t (l ++ (merge b c ++ r))) s := by
  have hend := h.end_le
  rw [total_cons] at hend
  have hsmall := h.small
  have hb : b.len = 8 * (b.data + 1) := rfl
  have hc : c.len = 8 * (c.data + 1) := rfl
  have hrow : l ++ b :: c :: r = (l ++ [b]) ++ c :: r := by simp
  have htop : s.heapbase + total Block.len l + b.len + c.len ≠ s.heaptop ↔ r ≠ [] := by
    rw [← (hrow ▸ h : Tiled s ((l ++ [b]) ++ c :: r)).next_ne_top]
    simp only [total_append, total_cons, total_nil]
    rw [Nat.add_zero, Nat.add_assoc s.heapbase]
  set x := s.heapbase + total Block.len l with hx
  have hmem : s.mem x = header (lastLen Block.len 0 l) b := h.mem_eq
  have hmem' : s.mem (x + b.len) = header b.len c := h.mem_next
  have hprev : (header (lastLen Block.len 0 l) b).nextblock = (header b.len c).prevblock :=
    mMkfield_len.symm
  have hnext : mNext (x + b.len) (header b.len c) = x + b.len + c.len := mNext_header (by omega)
  unfold mallocTrymerge
  simp only [readHeader, gives_bind, gives_get, gives_pure, hmem, hmem', hnext]
  rw [if_neg (not_not.2 hprev)]
  by_cases huse : b.inuse ∨ c.inuse
  · rw [if_pos (by simpa using huse), gives_pure, merge, if_pos huse]
    exact ⟨s.mem, rfl, h⟩
  · rw [if_neg (by simpa using huse)]
    set both : Block := { data := b.data + c.data + 1, inuse := false } with hboth
    have hmerge : merge b c = [both] := if_neg huse
    have hblen : both.len = b.len + c.len := by
      rw [hb, hc]
      change 8 * (b.data + c.data + 1 + 1) = _
      omega
    have hfree : b.inuse = false := by simpa using fun hu => huse (.inl hu)
    have hfield : mMkfield (addSize (addSize (addSize mblocksize
        (mSize (header (lastLen Block.len 0 l) b))) mblocksize) (mSize (header b.len c))) =
        both.data + 1 := by
      have h₁ : addSize mblocksize (8 * b.data) = 8 + 8 * b.data :=
        addSize_eq (by unfold mblocksize; omega)
      have h₂ : addSize (8 + 8 * b.data) mblocksize = 16 + 8 * b.data := by
        rw [addSize_eq (by unfold mblocksize; omega)]
        unfold mblocksize
        omega
      have h₃ : addSize (16 + 8 * b.data) (8 * c.data) = 16 + 8 * b.data + 8 * c.data :=
        addSize_eq (by omega)
      rw [mSize_header (by omega), mSize_header (by omega), h₁, h₂, h₃]
      unfold mMkfield
      change (16 + 8 * b.data + 8 * c.data) / 8 = b.data + c.data + 1 + 1
      omega
    have hfirst : { header (lastLen Block.len 0 l) b with nextblock := both.data + 1 } =
        header (lastLen Block.len 0 l) both := by
      simp only [header, hfree, hboth]
    have hfields : mblocksize = 8 := rfl
    simp only [hfield, hfirst, writeHeader, gives_bind, gives_modify, gives_get]
    by_cases hr : r = []
    · rw [if_neg (not_not.2 (by simpa [hr] using htop))]
      refine gives_mono (gives_mallocDeadbeef (by omega)) ?_
      rintro _ _ ⟨mem, rfl, hsame⟩
      dsimp only at hsame
      refine ⟨mem, rfl, ?_⟩
      rw [hmerge]
      refine Tiled.replace (m := [b, c]) h (by simp [hblen]) ⟨?_, trivial⟩ ?_ ?_
      · rw [Holds, ← hx, hsame _ (.inl (by omega)), Function.update_self]
      · intro d r' hd
        rw [hr] at hd
        cases hd
      · intro a ha
        rw [← hx, total_cons, total_cons, total_nil] at ha
        rw [hsame a (by omega), Function.update_of_ne (by omega)]
    · rw [if_pos (htop.2 hr)]
      obtain ⟨d, r', rfl⟩ := List.exists_cons_of_ne_nil hr
      have hd : s.mem (x + b.len + c.len) = header c.len d := by
        have := (hrow ▸ h : Tiled s ((l ++ [b]) ++ c :: d :: r')).mem_next
        simp only [total_append, total_cons, total_nil] at this
        rwa [Nat.add_zero, ← Nat.add_assoc, ← hx] at this
      simp only [gives_bind, gives_modify, gives_get, gives_pure]
      refine gives_mono (gives_mallocDeadbeef (by omega)) ?_
      rintro _ _ ⟨mem, rfl, hsame⟩
      dsimp only at hsame
      refine ⟨mem, rfl, ?_⟩
      rw [hmerge]
      refine Tiled.replace (m := [b, c]) h (by simp [hblen]) ⟨?_, trivial⟩ ?_ ?_
      · rw [Holds, ← hx, hsame _ (.inl (by omega)), Function.update_of_ne (by omega),
          Function.update_self]
      · intro e r'' he
        obtain ⟨rfl, rfl⟩ := List.cons.inj he
        rw [← hx, total_cons, total_cons, total_nil, Nat.add_zero, ← Nat.add_assoc,
          hsame _ (.inr (by omega)), Function.update_self, Function.update_of_ne (by omega), hd]
        exact header_prevblock
      · intro a ha
        rw [← hx, total_cons, total_cons, total_nil] at ha
        rw [hsame a (by omega), Function.update_of_ne (by omega), Function.update_of_ne (by omega)]

end Os161.Libc
