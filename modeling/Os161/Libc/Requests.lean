import Os161.Libc.Histories

set_option autoImplicit false

/-!
# Requests of any size

`malloc` rounds a request up to whole blocks, and the space for it to whole pages, in 32 bits. A
request near the end of the address space becomes a small one. It is served rightly when neither
rounding wraps around; and when the first does not and a free block is large enough; and when `sbrk`
fails.
-/

namespace Os161.Libc

open Os161.Lib.Calls
open Os161.Lib.Runs
open Os161.Lib.Tiles

/-- What `malloc` asks `sbrk` for, when no block fits a request that has been rounded to `r`. -/
def morespace (bs : List Block) (r : Nat) : Nat :=
  roundPages (match bs.getLast? with
    | some b => if b.inuse then addSize mblocksize r else subSize r (8 * b.data)
    | none => addSize mblocksize r)

/-- When a block fits what the request has been rounded to, then the rounding has not wrapped
around; when none fits and `sbrk` has more memory, then neither that nor the rounding to pages has. -/
structure Meets (h : Heap) (bs : List Block) (size : Nat) (env : SbrkEnv) : Prop where
  fits : ∀ b ∈ bs, b.fits (roundBlocks size / 8) → size + 7 < 2 ^ 32
  grows : (∀ b ∈ bs, ¬ b.fits (roundBlocks size / 8)) → env.more = true →
    h.brk + morespace bs (roundBlocks size) < 2 ^ 32 →
    size + 7 < 2 ^ 32 ∧ space bs (units size) + 4095 < 2 ^ 32

/-- The heap in which `malloc` searches: the one that is there, or the one that `__malloc_init` sets
up. -/
inductive SetUp (h : Heap) (env : SbrkEnv) : Heap → Prop where
  | ready : h.heapbase ≠ 0 → SetUp h env h
  | aligned : h.heapbase = 0 → env.initial = true → h.brk ≠ 0 → h.brk < 2 ^ 32 → h.brk % 8 = 0 →
      SetUp h env { h with heapbase := h.brk, heaptop := h.brk }
  | adjusted : h.heapbase = 0 → env.initial = true → h.brk ≠ 0 → h.brk < 2 ^ 32 → h.brk % 8 ≠ 0 →
      env.align = true → h.brk + (8 - h.brk % 8) < 2 ^ 32 →
      SetUp h env { h with
        heapbase := h.brk + (8 - h.brk % 8)
        heaptop := h.brk + (8 - h.brk % 8)
        brk := h.brk + (8 - h.brk % 8) }

/-- A process asks for what is served rightly, frees what is live, and stores into what it has been
given. -/
def Accepts (s : Process) : Op → Prop
  | .malloc size env => size < 2 ^ 32 ∧ ∀ h bs, SetUp s.heap env h → Tiled h bs → Meets h bs size env
  | .free x => x = 0 ∨ ∃ n, (x, n) ∈ s.live
  | .store a _ => ∃ p n, (p, n) ∈ s.live ∧ p ≤ a ∧ a < p + n ∧ (a - p) % 8 = 0

/-- The live pointers after `malloc` has returned `p`. -/
def livePointers (s : Process) (size p : Nat) : List (Nat × Nat) :=
  if p = 0 then s.live else (p, size) :: s.live

/-- `malloc` has returned NULL, or a pointer to `size` bytes in the heap that are nobody else's; the
blocks fill the heap, and every live pointer is to one that is large enough. -/
structure Serves (s : Process) (size p : Nat) (t : Heap) : Prop where
  tiled : ∃ bs, Tiled t bs ∧ ∀ q n, (q, n) ∈ livePointers s size p →
    ∃ x b, q = x + 8 ∧ Used t.heapbase bs x b ∧ n ≤ 8 * b.data
  inside : p ≠ 0 → t.heapbase < p ∧ p + size ≤ t.heaptop
  apart : (livePointers s size p).Pairwise fun q r => q.1 + q.2 + 8 ≤ r.1 ∨ r.1 + r.2 + 8 ≤ q.1

section Requests

variable {s t : Process} {h u : Heap} {bs l r : List Block} {b : Block} {size k : Nat}
  {env : SbrkEnv} {ok : Exit → Prop}

/-! ## Requests that are served -/

theorem roundBlocks_units (size : Nat) : roundBlocks size = 8 * (roundBlocks size / 8) := by
  unfold roundBlocks mblocksize addSize
  omega

theorem roundBlocks_div (hsize : size + 7 < 2 ^ 32) : roundBlocks size / 8 = units size := by
  rw [roundBlocks_eq hsize]
  omega

/-- `sbrk` fails. -/
theorem gives_mallocSbrk_none {n : Nat} (hno : ¬ (env.more = true ∧ h.brk + n < 2 ^ 32)) :
    Gives ok (mallocSbrk env.more n) (fun p t => p = none ∧ t = h) h := by
  simp only [mallocSbrk, sbrk, gives_bind, gives_get]
  rw [if_neg hno]
  simp only [gives_pure, true_and]

theorem gives_newTop_none {rightprevblock : Nat}
    (hno : ¬ (env.more = true ∧ h.brk + roundPages (addSize mblocksize k) < 2 ^ 32)) :
    Gives ok (newTop env k rightprevblock) (fun p t => p = 0 ∧ t = h) h := by
  rw [newTop, gives_bind]
  refine gives_mono (gives_mallocSbrk_none hno) fun p t ⟨hp, ht⟩ => ?_
  rw [hp]
  exact (gives_pure _).2 ⟨rfl, ht⟩

theorem gives_expand_none (ht : Tiled h bs) (hfit : ∀ b ∈ bs, ¬ b.fits k)
    (hno : ¬ (env.more = true ∧ h.brk + morespace bs (8 * k) < 2 ^ 32)) :
    Gives ok (expand env (8 * k) (lastLen Block.len 0 bs / 8) (lastStart h.heapbase bs))
      (fun p t => p = 0 ∧ t = h) h := by
  rw [expand, gives_bind]
  rcases List.eq_nil_or_concat bs with hnil | ⟨l, b, hbs⟩
  · rw [hnil] at hno
    rw [hnil, lastStart_nil, freeTop, gives_pure]
    exact gives_newTop_none hno
  · rw [List.concat_eq_append] at hbs
    subst hbs
    rw [morespace, List.getLast?_concat] at hno
    simp only [lastStart_concat, freeTop, readHeader, gives_bind, gives_get, gives_pure, ht.mem_eq,
      inuse_header]
    by_cases hb : b.inuse = true
    · rw [if_pos hb, gives_pure]
      dsimp only at hno
      rw [if_pos hb] at hno
      exact gives_newTop_none hno
    · have hend := ht.end_le
      have hsmall := ht.small
      have hblen : b.len = 8 * (b.data + 1) := rfl
      have hlt : b.data < k := by
        by_contra hle
        exact hfit b (by simp) ⟨by simpa using hb, by omega⟩
      have hsize : mSize (header (lastLen Block.len 0 l) b) = 8 * b.data := mSize_header (by omega)
      dsimp only at hno
      rw [if_neg hb] at hno
      rw [if_neg hb, gives_pure]
      dsimp only
      rw [growTop, hsize, if_neg (not_not.2 (by omega)), gives_bind]
      refine gives_mono (gives_mallocSbrk_none hno) fun p t hpost => ?_
      rw [hpost.1]
      exact (gives_pure _).2 ⟨rfl, hpost.2⟩

theorem gives_mallocReady_meets (ht : Tiled h bs) (hs : Sound bs) (hm : Meets h bs size env) :
    Gives ok (mallocReady size env) (Answers h bs (units size)) h := by
  have hround := roundBlocks_units size
  refine gives_mallocReady_of ht env hround (fun l b r hbs hfits t hbase htiled => ?_) fun hall => ?_
  · have hno := hm.fits b (by rw [hbs]; simp) hfits
    rw [roundBlocks_div hno] at hfits htiled
    subst hbs
    exact .inr (allocates_take hs hfits hbase htiled)
  · by_cases hmore : env.more = true ∧ h.brk + morespace bs (roundBlocks size) < 2 ^ 32
    · obtain ⟨hno, hspace⟩ := hm.grows hall hmore.1 hmore.2
      rw [roundBlocks_div hno] at hall ⊢
      have hunits : 8 * units size < 2 ^ 32 := by
        unfold units
        omega
      exact gives_expand ht hs hall hunits hspace env
    · rw [hround] at hmore
      exact gives_mono (gives_expand_none ht hall hmore) fun p t hp => .inl hp

/-! ## The first request -/

/-- `__malloc_init` sets a heap up, or the process ends. -/
theorem gives_mallocInit_setUp {P : Unit → Heap → Prop} (hbase : h.heapbase = 0)
    (htop : h.heaptop = 0) (hdone : ∀ u, SetUp h env u → Tiled u [] → P () u)
    (hexit : ∀ e, NoBreak e → (∀ u, ¬ SetUp h env u) → ok e) : Gives ok (mallocInit env) P h := by
  have hmb : mblocksize = 8 := rfl
  simp only [mallocInit, sbrk, gives_bind, gives_get]
  rw [if_neg (by omega)]
  simp only [gives_bind, gives_get]
  by_cases hc : env.initial = true ∧ h.brk + 0 < 2 ^ 32
  · rw [if_pos hc]
    simp only [gives_bind, gives_modify, gives_pure, Nat.add_zero]
    by_cases hbrk : h.brk = 0
    · rw [if_pos hbrk, gives_halt]
      refine hexit _ (.inr (.inr rfl)) fun u hu => ?_
      cases hu <;> contradiction
    rw [if_neg hbrk]
    simp only [gives_bind, gives_modify]
    by_cases hal : h.brk % mblocksize ≠ 0
    · rw [if_pos hal]
      simp only [gives_bind, gives_get]
      by_cases hc' : env.align = true ∧ h.brk + (mblocksize - h.brk % mblocksize) < 2 ^ 32
      · rw [if_pos hc']
        simp only [gives_bind, gives_modify, gives_pure]
        rw [if_neg (not_not.2 rfl), gives_modify]
        exact hdone _ (.adjusted hbase hc.1 hbrk hc.2 hal hc'.1 hc'.2)
          ⟨Nat.add_pos_left (Nat.pos_of_ne_zero hbrk) _, trivial, rfl, rfl, hc'.2⟩
      · rw [if_neg hc']
        simp only [gives_pure, gives_halt]
        refine hexit _ (.inr (.inl rfl)) fun u hu => ?_
        cases hu with
        | ready hne => exact hne hbase
        | aligned _ _ _ _ hzero => exact hal hzero
        | adjusted _ _ _ _ _ halign hlt => exact hc' ⟨halign, hlt⟩
    · rw [if_neg hal, gives_pure]
      exact hdone _ (.aligned hbase hc.1 hbrk hc.2 (not_not.1 hal))
        ⟨Nat.pos_of_ne_zero hbrk, trivial, rfl, rfl, hc.2⟩
  · rw [if_neg hc]
    simp only [gives_pure, gives_halt]
    refine hexit _ (.inl rfl) fun u hu => ?_
    cases hu with
    | ready hne => exact hne hbase
    | aligned _ hinit _ hlt => exact hc ⟨hinit, hlt⟩
    | adjusted _ hinit _ hlt => exact hc ⟨hinit, hlt⟩

theorem SetUp.eq {v : Heap} (hu : SetUp h env u) (hv : SetUp h env v) : u = v := by
  cases hu <;> cases hv <;> first | rfl | contradiction

/-! ## Runs -/

theorem Intact.serves {p : Nat} (hi : Intact ⟨u, livePointers s size p⟩ bs) : Serves s size p u where
  tiled := ⟨bs, hi.tiled, hi.live⟩
  inside hp := by
    have hmem : (p, size) ∈ livePointers s size p := by
      rw [livePointers, if_neg hp]
      exact List.mem_cons_self
    obtain ⟨x, b, rfl, hused, hle⟩ := hi.live p size hmem
    have hbounds := hused.1.bounds
    have htop := hi.tiled.top
    have hlen : b.len = 8 * (b.data + 1) := rfl
    dsimp only at hbounds htop
    omega
  apart := hi.apart

theorem gives_malloc_accepts (hi : Inv s)
    (ha : ∀ h bs, SetUp s.heap env h → Tiled h bs → Meets h bs size env) :
    Gives (Ends s) (malloc size env)
      (fun p u => ∃ bs, Intact ⟨u, livePointers s size p⟩ bs) s.heap := by
  simp only [malloc, gives_bind, gives_get]
  rcases hi with hf | ⟨bs, hi⟩
  · rw [if_pos hf.heapbase, gives_bind]
    refine gives_mallocInit_setUp hf.heapbase hf.heaptop (fun u hu ht => ?_)
      fun e he _ => ⟨hf.heapbase, he⟩
    have hnil : Intact ⟨u, s.live⟩ [] := by
      rw [hf.live]
      exact ⟨ht, sound_nil, fun _ _ hp => absurd hp List.not_mem_nil,
        fun _ _ hu => absurd hu not_used_nil, List.nodup_nil⟩
    exact gives_mono (gives_mallocReady_meets ht sound_nil (ha u [] hu ht))
      fun p v hv => hnil.malloc hv
  · have hbase := hi.tiled.base
    rw [if_neg (by omega)]
    exact gives_mono (gives_mallocReady_meets hi.tiled hi.sound
      (ha s.heap bs (.ready (by omega)) hi.tiled)) fun p v hv => hi.malloc hv

theorem inv_accepts {a : Op} (hi : Inv s) (ha : Accepts s a) (h : step s a t) : Inv t := by
  cases a with
  | malloc size env =>
      obtain ⟨u, live⟩ := t
      obtain ⟨p, hres, rfl⟩ := h
      obtain ⟨q, hq, bs, hbs⟩ := (gives_malloc_accepts hi ha.2).returns hres
      cases hq
      exact .inr ⟨bs, hbs⟩
  | free x => exact inv_step hi (a := .free x) ha h
  | store c w => exact inv_step hi (a := .store c w) ha h

theorem inv_of_accepts {brk : Nat} {mem : Nat → Mheader}
    (h : Reach step Accepts (start brk mem) s) : Inv s :=
  h.invariant (I := Inv) (fun _ _ _ hi hok hs => inv_accepts hi hok hs) (.inl ⟨rfl, rfl, rfl⟩)

/-! ## Requests that are not served -/

/-- The process does not end for want of a heap. -/
def NotInit (e : Exit) : Prop := ¬ NoBreak e

theorem gives_mallocSplit_top {mh n : Nat} :
    Gives NotInit (mallocSplit mh n) (fun _ v => v.heaptop = u.heaptop) u := by
  have hexit : NotInit .splitSize ∧ NotInit .splitScrewed := by
    constructor <;> rintro (h | h | h) <;> cases h
  rw [mallocSplit, gives_ite]
  refine ⟨fun _ => (gives_halt _).2 hexit.1, fun _ => ?_⟩
  simp only [readHeader, writeHeader, gives_bind, gives_get, gives_pure, gives_modify, gives_ite,
    gives_halt]
  exact ⟨fun _ => trivial, fun _ => ⟨fun _ => hexit.2, fun _ => ⟨fun _ => trivial, fun _ => trivial⟩⟩⟩

/-- `sbrk` succeeds. -/
theorem gives_mallocSbrk_some {n : Nat} (hbrk : h.brk = h.heaptop) (hmore : env.more = true)
    (hlt : h.brk + n < 2 ^ 32) :
    Gives ok (mallocSbrk env.more n) (fun p v => p = some h.heaptop ∧
      v.heaptop = h.heaptop + n) h := by
  simp only [mallocSbrk, sbrk, gives_bind, gives_get]
  rw [if_pos ⟨hmore, hlt⟩]
  simp only [gives_bind, gives_modify, gives_pure, gives_get]
  rw [if_neg (not_not.2 hbrk)]
  simp only [gives_bind, gives_modify, gives_pure]
  exact ⟨congrArg some hbrk, addSize_eq (hbrk ▸ hlt)⟩

theorem gives_newTop_some {rightprevblock : Nat} {P : Nat → Heap → Prop} (hbrk : h.brk = h.heaptop)
    (hmore : env.more = true) (hlt : h.brk + roundPages (addSize mblocksize k) < 2 ^ 32)
    (hP : ∀ v, v.heaptop = h.heaptop + roundPages (addSize mblocksize k) →
      P (mData h.heaptop) v) : Gives NotInit (newTop env k rightprevblock) P h := by
  rw [newTop, gives_bind]
  refine gives_mono (gives_mallocSbrk_some hbrk hmore hlt) fun p v ⟨hp, hv⟩ => ?_
  rw [hp]
  dsimp only
  rw [gives_bind, writeHeader, gives_modify, gives_bind]
  exact gives_mono gives_mallocSplit_top fun _ w hw => (gives_pure _).2 (hP w (hw.trans hv))

theorem gives_growTop_some {mh : Nat} {hd : Mheader} {P : Nat → Heap → Prop}
    (hbrk : h.brk = h.heaptop) (hmore : env.more = true) (hsize : mSize hd < k)
    (hlt : h.brk + roundPages (subSize k (mSize hd)) < 2 ^ 32)
    (hP : ∀ v, v.heaptop = h.heaptop + roundPages (subSize k (mSize hd)) → P (mData mh) v) :
    Gives NotInit (growTop env k mh hd) P h := by
  rw [growTop, if_neg (not_not.2 hsize), gives_bind]
  refine gives_mono (gives_mallocSbrk_some hbrk hmore hlt) fun p v ⟨hp, hv⟩ => ?_
  rw [hp]
  dsimp only
  rw [gives_bind, readHeader, gives_bind, gives_get, gives_pure, gives_bind, writeHeader,
    gives_modify, gives_bind]
  exact gives_mono gives_mallocSplit_top fun _ w hw => (gives_pure _).2 (hP w (hw.trans hv))

theorem roundPages_wraps {n : Nat} (hn : n < 2 ^ 32) (hwrap : 2 ^ 32 ≤ n + 4095) :
    roundPages n = 0 := by
  unfold roundPages pageSize addSize
  omega

/-- When the space for the header and the request wraps around, nothing is asked for. -/
theorem roundPages_add_wraps (hk : 8 * k < 2 ^ 32) (hwrap : 2 ^ 32 ≤ 8 * k + 8 + 4095) :
    roundPages (addSize mblocksize (8 * k)) = 0 := by
  unfold roundPages pageSize addSize mblocksize
  omega

theorem roundBlocks_wraps (hsize : size < 2 ^ 32) (hwrap : ¬ size + 7 < 2 ^ 32) :
    roundBlocks size = 0 := by
  unfold roundBlocks mblocksize addSize
  omega

/-- `malloc` has returned a pointer behind which the heap is too short. -/
def Short (size p : Nat) (v : Heap) : Prop := p ≠ 0 ∧ v.heaptop < p + size

theorem gives_expand_fails (ht : Tiled h bs) (hall : ∀ b ∈ bs, ¬ b.fits k) (hsize : size < 2 ^ 32)
    (hround : roundBlocks size = 8 * k) (hbrk : h.brk ≤ 2 ^ 31) (hmore : env.more = true)
    (hlt : h.brk + morespace bs (8 * k) < 2 ^ 32)
    (hno : ¬ (size + 7 < 2 ^ 32 ∧ space bs (units size) + 4095 < 2 ^ 32)) :
    Gives NotInit (expand env (8 * k) (lastLen Block.len 0 bs / 8) (lastStart h.heapbase bs))
      (Short size) h := by
  have htop := ht.brk
  have hk : 8 * k < 2 ^ 32 := by
    rw [← hround]
    unfold roundBlocks mblocksize addSize
    omega
  have hunits : size + 7 < 2 ^ 32 → k = units size := fun hno => by
    rw [roundBlocks_eq hno] at hround
    omega
  have hwrap : ¬ size + 7 < 2 ^ 32 → k = 0 := fun hwrap => by
    rw [roundBlocks_wraps hsize hwrap] at hround
    omega
  -- a new block at the top
  have hnew : h.brk + roundPages (addSize mblocksize (8 * k)) < 2 ^ 32 →
      (size + 7 < 2 ^ 32 → 2 ^ 32 ≤ 8 * units size + 8 + 4095) →
      Gives NotInit (newTop env (8 * k) (lastLen Block.len 0 bs / 8)) (Short size) h :=
    fun hlt hspace => by
      refine gives_newTop_some htop hmore hlt fun v hv => ?_
      have hdata : mData h.heaptop = h.heaptop + 8 := mData_eq (by omega)
      rw [Short, hdata, hv]
      refine ⟨by omega, ?_⟩
      by_cases hno : size + 7 < 2 ^ 32
      · rw [roundPages_add_wraps hk (by rw [hunits hno]; exact hspace hno)]
        omega
      · rw [hwrap hno]
        have hpage : roundPages (addSize mblocksize (8 * 0)) = 4096 := by decide
        rw [hpage]
        omega
  rw [expand, gives_bind]
  rcases List.eq_nil_or_concat bs with hnil | ⟨l, b, hbs⟩
  · subst hnil
    rw [lastStart_nil, freeTop, gives_pure]
    exact hnew hlt fun hno' => by
      have hspace : space [] (units size) = 8 * units size + 8 := rfl
      omega
  · rw [List.concat_eq_append] at hbs
    subst hbs
    rw [morespace, List.getLast?_concat] at hlt
    rw [space_concat] at hno
    simp only [lastStart_concat, freeTop, readHeader, gives_bind, gives_get, gives_pure, ht.mem_eq,
      inuse_header]
    dsimp only at hlt
    by_cases hb : b.inuse = true
    · rw [if_pos hb] at hlt hno
      rw [if_pos hb, gives_pure]
      exact hnew hlt fun hno' => by omega
    · rw [if_neg hb] at hlt hno
      rw [if_neg hb, gives_pure]
      dsimp only
      have hend := ht.end_le
      have hsmall := ht.small
      have hblen : b.len = 8 * (b.data + 1) := rfl
      have hlast := ht.top
      rw [total_append, total_cons, total_nil] at hlast
      have hfit : b.data < k := by
        by_contra hle
        exact hall b (by simp) ⟨by simpa using hb, by omega⟩
      have hno' : size + 7 < 2 ^ 32 := by
        by_contra hno'
        have hzero := hwrap hno'
        omega
      have hmsize : mSize (header (lastLen Block.len 0 l) b) = 8 * b.data := mSize_header (by omega)
      have hsub : subSize (8 * k) (8 * b.data) = 8 * (k - b.data) := by
        rw [subSize_eq (by omega) hk]
        omega
      have hspace : roundPages (8 * (k - b.data)) = 0 := by
        rw [← hunits hno'] at hno
        exact roundPages_wraps (by omega) (by omega)
      refine gives_growTop_some htop hmore (by omega) (by rw [hmsize, hsub, hspace]; omega)
        fun v hv => ?_
      rw [hmsize, hsub, hspace] at hv
      have hdata : mData (h.heapbase + total Block.len l) = h.heapbase + total Block.len l + 8 :=
        mData_eq (by omega)
      have hle : 8 * b.data < size := by
        have hk' := hunits hno'
        rw [units] at hk'
        omega
      rw [Short, hdata, hv]
      omega

/-- A request that is not met ends in a pointer behind which the heap is too short, or in the end of
the process. -/
theorem gives_mallocReady_fails (ht : Tiled h bs) (hsize : size < 2 ^ 32) (hbrk : h.brk ≤ 2 ^ 31)
    (hm : ¬ Meets h bs size env) : Gives NotInit (mallocReady size env) (Short size) h := by
  have hround := roundBlocks_units size
  refine gives_mallocReady_of ht env hround (fun l b r hbs hfits v hbase hv => ?_) fun hall => ?_
  · have hwrap : ¬ size + 7 < 2 ^ 32 := fun hno =>
      hm ⟨fun _ _ _ => hno, fun hall => absurd hfits (hall b (by rw [hbs]; simp))⟩
    have hpos := ht.base
    have hsmall := hv.small
    exact ⟨by omega, by omega⟩
  · obtain ⟨hmore, hlt, hno⟩ : env.more = true ∧
        h.brk + morespace bs (roundBlocks size) < 2 ^ 32 ∧
        ¬ (size + 7 < 2 ^ 32 ∧ space bs (units size) + 4095 < 2 ^ 32) := by
      by_contra hcon
      refine hm ⟨fun b hb hfits => absurd hfits (hall b hb), fun _ hmore hlt => ?_⟩
      by_contra hno
      exact hcon ⟨hmore, hlt, hno⟩
    rw [hround] at hlt
    exact gives_expand_fails ht hall hsize hround hbrk hmore hlt hno

theorem SetUp.brk_le (hu : SetUp h env u) (hbrk : h.brk ≤ 2 ^ 31) : u.brk ≤ 2 ^ 31 := by
  cases hu with
  | ready => exact hbrk
  | aligned => exact hbrk
  | adjusted =>
      show h.brk + (8 - h.brk % 8) ≤ 2 ^ 31
      omega

theorem gives_malloc_fails (hi : Inv s) (hu : SetUp s.heap env u) (ht : Tiled u bs)
    (hsize : size < 2 ^ 32) (hbrk : s.heap.brk ≤ 2 ^ 31) (hm : ¬ Meets u bs size env) :
    Gives NotInit (malloc size env) (Short size) s.heap := by
  have hfails := gives_mallocReady_fails ht hsize (hu.brk_le hbrk) hm
  simp only [malloc, gives_bind, gives_get]
  by_cases hbase : s.heap.heapbase = 0
  · have htop : s.heap.heaptop = 0 := by
      rcases hi with hf | ⟨bs', hi⟩
      · exact hf.heaptop
      · exact absurd hbase (Nat.ne_of_gt hi.tiled.base)
    rw [if_pos hbase, gives_bind]
    refine gives_mallocInit_setUp hbase htop (fun v hv _ => ?_) fun e _ hnone => ?_
    · rw [hv.eq hu]
      exact hfails
    · exact absurd hu (hnone u)
  · rw [if_neg hbase, (SetUp.ready hbase).eq hu]
    exact hfails

/-- In every run of requests that are met, a request is served if it is met; and if it is served, in
a heap below `USERSPACETOP`, then it is met. -/
theorem malloc_serves_iff {brk : Nat} {mem : Nat → Mheader}
    (h : Reach step Accepts (start brk mem) s) (size : UInt32) (env : SbrkEnv) :
    (Accepts s (.malloc size.toNat env) →
      Gives (Ends s) (malloc size.toNat env) (Serves s size.toNat) s.heap) ∧
    (s.heap.brk ≤ 2 ^ 31 →
      Gives (Ends s) (malloc size.toNat env) (Serves s size.toNat) s.heap →
      Accepts s (.malloc size.toNat env)) := by
  have hi := inv_of_accepts h
  constructor
  · intro ha
    exact gives_mono (gives_malloc_accepts hi ha.2) fun p u ⟨bs, hbs⟩ => hbs.serves
  · intro hbrk hserves
    refine ⟨size.toNat_lt, fun u bs hu ht => ?_⟩
    by_contra hm
    have hfails := gives_malloc_fails hi hu ht size.toNat_lt hbrk hm
    cases hres : (malloc size.toNat env).result s.heap with
    | error e => exact hfails.panics hres (hserves.panics hres).2
    | ok x =>
        obtain ⟨r, v⟩ := x
        obtain ⟨p, hp, hshort⟩ := hfails.returns hres
        obtain ⟨q, hq, hserved⟩ := hserves.returns hres
        cases hp
        cases hq
        have hinside := hserved.inside hshort.1
        exact absurd hinside.2 (Nat.not_le.2 hshort.2)

end Requests

/-- Requests that can be rounded up are met. -/
theorem accepts_of_rounds {s : Process} {size : Nat} {env : SbrkEnv} (h : Rounds size) :
    Accepts s (.malloc size env) := by
  have hlt := h.1
  rw [mblocksize] at hlt
  exact ⟨by omega, fun u bs _ _ => ⟨fun _ _ _ => h.1, fun _ _ _ => ⟨h.1, h.space bs⟩⟩⟩

/-- The second request. -/
theorem malloc_serves_littered :
    let s : Process := ⟨after littered.heap 10, [(24, 10)]⟩
    Gives (Ends s) (malloc 1 grows) (Serves s 1) s.heap ∧ Accepts s (.malloc 1 grows) := by
  have hreach : Reach step Accepts littered ⟨after littered.heap 10, [(24, 10)]⟩ :=
    Reach.refl.tail (a := .malloc 10 grows) (accepts_of_rounds ⟨by decide, by decide⟩)
      (step_of_answer (by decide +kernel) (by decide))
  obtain ⟨hmeets, hserved⟩ := malloc_serves_iff hreach 1 grows
  have hserves := hmeets (accepts_of_rounds ⟨by decide, by decide⟩)
  exact ⟨hserves, hserved (by decide +kernel) hserves⟩

/-- A request for `4294967295` bytes is rounded to none, and gets a pointer into a heap of one
page. -/
theorem malloc_serves_nothing : answer littered.heap 4294967295 = some 24 ∧
    (after littered.heap 4294967295).heaptop = 4112 ∧
    ¬ Gives (Ends littered) (malloc 4294967295 grows) (Serves littered 4294967295)
      littered.heap := by
  have hanswer : answer littered.heap 4294967295 = some 24 := by decide +kernel
  have htop : (after littered.heap 4294967295).heaptop = 4112 := by decide +kernel
  refine ⟨hanswer, htop, fun hserves => ?_⟩
  obtain ⟨p, hres, -⟩ := step_of_answer (s := littered) hanswer (by decide)
  have hp : p = 24 := by
    have hsame := hanswer
    rw [answer, hres] at hsame
    exact Option.some.inj hsame
  obtain ⟨q, hq, hserved⟩ := hserves.returns hres
  cases hq
  have hinside := (hserved.inside (by rw [hp]; decide)).2
  rw [hp, htop] at hinside
  exact absurd hinside (by decide)

end Os161.Libc
