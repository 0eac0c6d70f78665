import Os161.Lib.Runs
import Os161.Libc.Allocation

set_option autoImplicit false

/-!
# Histories of the user-level heap

A process calls `malloc` and `free` and stores into the blocks it has been given. It frees live
pointers and NULL only, and asks for sizes that can be rounded up. In every state it reaches the
blocks fill the heap, the live ones do not overlap, and no call ends the process; only the first
`malloc` may, when it finds no break that the heap could start at.
-/

namespace Os161.Libc

open Os161.Lib.Calls
open Os161.Lib.Runs
open Os161.Lib.Tiles

/-- A process, with the pointers that `malloc` has returned and that have not been freed, and the
sizes it has asked for. -/
structure Process where
  heap : Heap
  live : List (Nat × Nat)

/-- What a process does with its heap. -/
inductive Op where
  | malloc (size : Nat) (env : SbrkEnv)
  | free (x : Nat)
  /-- Eight bytes are stored. -/
  | store (a : Nat) (w : Mheader)

/-- One operation; one that ends the process has no successor. -/
def step (s : Process) : Op → Process → Prop
  | .malloc size env, t =>
      ∃ p, (malloc size env).result s.heap = .ok (.ok p, t.heap) ∧
        t.live = if p = 0 then s.live else (p, size) :: s.live
  | .free x, t =>
      (free x).result s.heap = .ok (.ok (), t.heap) ∧ t.live = s.live.filter fun q => q.1 ≠ x
  | .store a w, t =>
      t.heap = { s.heap with mem := Function.update s.heap.mem a w } ∧ t.live = s.live

/-- A process frees what is live, and stores into what it has been given. -/
def Allowed (s : Process) : Op → Prop
  | .malloc size _ => Rounds size
  | .free x => x = 0 ∨ ∃ n, (x, n) ∈ s.live
  | .store a _ => ∃ p n, (p, n) ∈ s.live ∧ p ≤ a ∧ a < p + n ∧ (a - p) % 8 = 0

/-- A process that has not called `malloc` yet. -/
def start (brk : Nat) (mem : Nat → Mheader) : Process :=
  { heap := { heapbase := 0, heaptop := 0, brk := brk, mem := mem }, live := [] }

/-! ## The invariant -/

/-- The heap has not been set up. -/
structure Fresh (s : Process) : Prop where
  heapbase : s.heap.heapbase = 0
  heaptop : s.heap.heaptop = 0
  live : s.live = []

/-- The blocks `bs` fill the heap, and those in use are the live ones. -/
structure Intact (s : Process) (bs : List Block) : Prop where
  tiled : Tiled s.heap bs
  sound : Sound bs
  live : ∀ p n, (p, n) ∈ s.live →
    ∃ x b, p = x + 8 ∧ Used s.heap.heapbase bs x b ∧ n ≤ 8 * b.data
  used : ∀ x b, Used s.heap.heapbase bs x b → ∃ n, (x + 8, n) ∈ s.live
  distinct : (s.live.map Prod.fst).Nodup

/-- What holds in every reachable state. -/
def Inv (s : Process) : Prop := Fresh s ∨ ∃ bs, Intact s bs

/-- `__malloc_init` finds no break that the heap could start at. -/
def NoBreak (e : Exit) : Prop := e = .initialSbrk ∨ e = .alignSbrk ∨ e = .heapAtZero

section Calls

variable {s t : Process} {h : Heap} {bs : List Block} {x size : Nat}

theorem gives_mallocInit (hbase : h.heapbase = 0) (htop : h.heaptop = 0) (env : SbrkEnv) :
    Gives NoBreak (mallocInit env) (fun _ t => Tiled t []) h := by
  have hmb : mblocksize = 8 := rfl
  simp only [mallocInit, sbrk, gives_bind, gives_get]
  rw [if_neg (by omega)]
  simp only [gives_bind, gives_get]
  by_cases hc : env.initial = true ∧ h.brk + 0 < 2 ^ 32
  · rw [if_pos hc]
    simp only [gives_bind, gives_modify, gives_pure, Nat.add_zero]
    by_cases hbrk : h.brk = 0
    · rw [if_pos hbrk, gives_halt]
      exact .inr (.inr rfl)
    rw [if_neg hbrk]
    simp only [gives_bind, gives_modify]
    by_cases hal : h.brk % mblocksize ≠ 0
    · rw [if_pos hal]
      simp only [gives_bind, gives_get]
      by_cases hc' : env.align = true ∧ h.brk + (mblocksize - h.brk % mblocksize) < 2 ^ 32
      · rw [if_pos hc']
        simp only [gives_bind, gives_modify, gives_pure]
        rw [if_neg (not_not.2 rfl), gives_modify]
        exact ⟨Nat.add_pos_left (Nat.pos_of_ne_zero hbrk) _, trivial, rfl, rfl, hc'.2⟩
      · rw [if_neg hc']
        simp only [gives_pure, gives_halt]
        exact .inr (.inl rfl)
    · rw [if_neg hal, gives_pure]
      exact ⟨Nat.pos_of_ne_zero hbrk, trivial, rfl, rfl, hc.2⟩
  · rw [if_neg hc]
    simp only [gives_pure, gives_halt]
    exact .inl rfl

theorem sound_nil : Sound [] := ⟨separated_nil, fun b hb => by cases hb⟩

/-- `malloc` on a heap that has been set up. -/
theorem gives_malloc_tiled {ok : Exit → Prop} (ht : Tiled h bs) (hs : Sound bs)
    (hsize : Rounds size) (env : SbrkEnv) :
    Gives ok (malloc size env) (Answers h bs (units size)) h := by
  have hbase := ht.base
  simp only [malloc, gives_bind, gives_get]
  rw [if_neg (by omega)]
  exact gives_mallocReady ht hs hsize.1 (fun _ => hsize.space bs) env

/-- The first `malloc`. -/
theorem gives_malloc_fresh (hbase : h.heapbase = 0) (htop : h.heaptop = 0)
    (hsize : Rounds size) (env : SbrkEnv) :
    Gives NoBreak (malloc size env)
      (fun p t => ∃ u, Tiled u [] ∧ Answers u [] (units size) p t) h := by
  simp only [malloc, gives_bind, gives_get]
  rw [if_pos hbase, gives_bind]
  refine gives_mono (gives_mallocInit hbase htop env) fun _ u hu => ?_
  exact gives_mono (gives_mallocReady hu sound_nil hsize.1 (fun _ => hsize.space []) env)
    fun p t ht => ⟨u, hu, ht⟩

/-! ## What one operation keeps -/

theorem le_units (size : Nat) : size ≤ 8 * units size := by
  unfold units
  omega

/-- Both answers of `malloc` keep the blocks and the live pointers together. -/
theorem Intact.malloc {p : Nat} {u : Heap} (hi : Intact s bs)
    (h : Answers s.heap bs (units size) p u) :
    ∃ bs', Intact ⟨u, if p = 0 then s.live else (p, size) :: s.live⟩ bs' := by
  rcases h with ⟨rfl, rfl⟩ | ⟨bs', x, b, rfl, hbase, ht, hs, hk, hused, hnew⟩
  · exact ⟨bs, hi⟩
  · rw [if_neg (Nat.succ_ne_zero _)]
    have hb : Used s.heap.heapbase bs' x b := (hused x b).2 (.inr ⟨rfl, rfl⟩)
    refine ⟨bs', ht, hs, ?_, ?_, ?_⟩ <;> dsimp only
    · rw [hbase]
      intro q n hq
      rcases List.mem_cons.1 hq with heq | hq
      · obtain ⟨rfl, rfl⟩ := Prod.mk.inj heq
        exact ⟨x, b, rfl, hb, (le_units n).trans (Nat.mul_le_mul_left 8 hk)⟩
      · obtain ⟨y, d, rfl, hd, hn⟩ := hi.live q n hq
        exact ⟨y, d, rfl, (hused y d).2 (.inl hd), hn⟩
    · rw [hbase]
      intro y d hd
      rcases (hused y d).1 hd with hd | ⟨rfl, -⟩
      · obtain ⟨n, hn⟩ := hi.used y d hd
        exact ⟨n, List.mem_cons_of_mem _ hn⟩
      · exact ⟨size, List.mem_cons_self⟩
    · rw [List.map_cons, List.nodup_cons]
      refine ⟨fun hmem => ?_, hi.distinct⟩
      obtain ⟨⟨q, n⟩, hq, heq⟩ := List.mem_map.1 hmem
      obtain ⟨y, d, rfl, hd, -⟩ := hi.live q n hq
      obtain rfl : y = x := Nat.add_right_cancel heq
      exact hnew d hd

/-- A live pointer has been freed. -/
theorem Intact.free {u : Heap} {bs' : List Block} (hi : Intact s bs)
    (hbase : u.heapbase = s.heap.heapbase) (ht : Tiled u bs') (hs : Sound bs')
    (hused : ∀ y d, Used s.heap.heapbase bs' y d ↔ Used s.heap.heapbase bs y d ∧ y ≠ x) :
    Intact ⟨u, s.live.filter fun q => q.1 ≠ x + 8⟩ bs' := by
  refine ⟨ht, hs, ?_, ?_, ?_⟩ <;> dsimp only
  · rw [hbase]
    intro q n hq
    obtain ⟨hq, hne⟩ := List.mem_filter.1 hq
    obtain ⟨y, d, rfl, hd, hn⟩ := hi.live q n hq
    have hyx : y ≠ x := fun heq => by simp [heq] at hne
    exact ⟨y, d, rfl, (hused y d).2 ⟨hd, hyx⟩, hn⟩
  · rw [hbase]
    intro y d hd
    obtain ⟨hd, hyx⟩ := (hused y d).1 hd
    obtain ⟨n, hn⟩ := hi.used y d hd
    exact ⟨n, List.mem_filter.2 ⟨hn, by simpa using hyx⟩⟩
  · exact hi.distinct.sublist (List.filter_sublist.map Prod.fst)

/-- A store into a live block leaves the headers alone. -/
theorem Intact.store {a p n : Nat} (hi : Intact s bs) (hlive : (p, n) ∈ s.live) (hp : p ≤ a)
    (ha : a < p + n) (w : Mheader) :
    Intact ⟨{ s.heap with mem := Function.update s.heap.mem a w }, s.live⟩ bs := by
  obtain ⟨x, b, rfl, ⟨hat, -⟩, hn⟩ := hi.live p n hlive
  obtain ⟨l, r, rfl, rfl⟩ := hat.split
  have hlen : b.len = 8 * (b.data + 1) := rfl
  refine ⟨hi.tiled.store fun c hc => Function.update_of_ne (by omega) _ _, hi.sound, hi.live,
    hi.used, hi.distinct⟩

theorem free_null {h u : Heap} {r : Except Empty Unit} (hres : (free 0).result h = .ok (r, u)) :
    u = h := by
  have hgives : Gives NoBreak (free 0) (fun _ t => t = h) h := by
    rw [Libc.free, if_pos rfl, gives_pure]
  obtain ⟨-, -, hu⟩ := hgives.returns hres
  exact hu

/-- NULL is not live. -/
theorem Intact.filter_null (hi : Intact s bs) : (s.live.filter fun q => q.1 ≠ 0) = s.live := by
  rw [List.filter_eq_self]
  rintro ⟨p, n⟩ hp
  obtain ⟨x, b, rfl, -⟩ := hi.live p n hp
  simp

theorem inv_step {a : Op} (hi : Inv s) (hok : Allowed s a) (h : step s a t) : Inv t := by
  obtain ⟨u, live⟩ := t
  cases a with
  | malloc size env =>
      obtain ⟨p, hres, rfl⟩ := h
      rcases hi with hf | ⟨bs, hi⟩
      · have hgives := gives_malloc_fresh hf.heapbase hf.heaptop hok env
        obtain ⟨q, hq, v, hv, ha⟩ := hgives.returns hres
        obtain rfl : p = q := by simpa using hq
        have hnil : Intact ⟨v, s.live⟩ [] := by
          rw [hf.live]
          exact ⟨hv, sound_nil, fun _ _ hp => absurd hp List.not_mem_nil,
            fun _ _ hu => absurd hu not_used_nil, List.nodup_nil⟩
        exact .inr (hnil.malloc ha)
      · have hgives : Gives NoBreak _ _ _ := gives_malloc_tiled hi.tiled hi.sound hok env
        obtain ⟨q, hq, ha⟩ := hgives.returns hres
        obtain rfl : p = q := by simpa using hq
        exact .inr (hi.malloc ha)
  | free x =>
      obtain ⟨hres, rfl⟩ := h
      rcases hi with hf | ⟨bs, hi⟩
      · -- nothing is live, so the pointer is NULL
        obtain rfl : x = 0 := hok.resolve_right fun ⟨n, hn⟩ => by
          rw [hf.live] at hn
          exact List.not_mem_nil hn
        obtain rfl := free_null hres
        exact .inl ⟨hf.heapbase, hf.heaptop, by rw [hf.live]; rfl⟩
      · rcases hok with rfl | ⟨n, hn⟩
        · obtain rfl := free_null hres
          refine .inr ⟨bs, ?_⟩
          rwa [hi.filter_null]
        · obtain ⟨y, b, rfl, hb, -⟩ := hi.live x n hn
          have hgives : Gives NoBreak _ _ _ := gives_free hi.tiled hi.sound hb
          obtain ⟨-, -, hbase, bs', ht, hs, hused⟩ := hgives.returns hres
          exact .inr ⟨bs', hi.free hbase ht hs hused⟩
  | store c w =>
      obtain ⟨rfl, rfl⟩ := h
      obtain ⟨p, n, hlive, hp, hlt, -⟩ := hok
      rcases hi with hf | ⟨bs, hi⟩
      · rw [hf.live] at hlive
        exact absurd hlive List.not_mem_nil
      · exact .inr ⟨bs, hi.store hlive hp hlt w⟩

/-! ## Every reachable state -/

theorem inv_of_reach {brk : Nat} {mem : Nat → Mheader}
    (h : Reach step Allowed (start brk mem) s) : Inv s := by
  have hstart : Inv (start brk mem) := .inl ⟨rfl, rfl, rfl⟩
  exact h.invariant (I := Inv) (fun _ _ _ hi hok hs => inv_step hi hok hs) hstart

/-- Two blocks in use lie apart, with their headers. -/
theorem Intact.apart (hi : Intact s bs) :
    s.live.Pairwise fun q r => q.1 + q.2 + 8 ≤ r.1 ∨ r.1 + r.2 + 8 ≤ q.1 := by
  have hne : s.live.Pairwise fun q r => q.1 ≠ r.1 := List.pairwise_map.1 hi.distinct
  refine hne.imp_of_mem ?_
  rintro ⟨p, n⟩ ⟨q, m⟩ hp hq hpq
  obtain ⟨x, b, rfl, hb, hn⟩ := hi.live p n hp
  obtain ⟨y, c, rfl, hc, hm⟩ := hi.live q m hq
  have hblen : b.len = 8 * (b.data + 1) := rfl
  have hclen : c.len = 8 * (c.data + 1) := rfl
  dsimp only at hpq ⊢
  rcases hb.1.apart hc.1 with ⟨rfl, -⟩ | h | h <;> omega

/-- What ends the process in a call that is allowed. -/
def Ends (s : Process) (e : Exit) : Prop := s.heap.heapbase = 0 ∧ NoBreak e

theorem Inv.gives_free (hi : Inv s) {x : Nat} (hx : x = 0 ∨ ∃ n, (x, n) ∈ s.live) :
    Gives (fun _ => False) (Libc.free x) (fun _ _ => True) s.heap := by
  rcases hx with rfl | ⟨n, hn⟩
  · rw [Libc.free, if_pos rfl, gives_pure]
    trivial
  · rcases hi with hf | ⟨bs, hi⟩
    · rw [hf.live] at hn
      exact absurd hn List.not_mem_nil
    · obtain ⟨y, b, rfl, hb, -⟩ := hi.live x n hn
      exact gives_mono (Libc.gives_free hi.tiled hi.sound hb) fun _ _ _ => trivial

end Calls

/-- A break that always moves. -/
def grows : SbrkEnv := { initial := true, align := true, more := true }

/-- What `malloc` returns, if it does. -/
def answer (h : Heap) (size : Nat) : Option Nat :=
  match (malloc size grows).result h with
  | .ok (.ok p, _) => some p
  | .error _ => none

/-- The heap after a call of `malloc`. -/
def after (h : Heap) (size : Nat) : Heap :=
  match (malloc size grows).result h with
  | .ok (_, t) => t
  | .error _ => h

theorem step_of_answer {s : Process} {size p : Nat} (hp : answer s.heap size = some p)
    (hne : p ≠ 0) : step s (.malloc size grows) ⟨after s.heap size, (p, size) :: s.live⟩ := by
  refine ⟨p, ?_, (if_neg hne).symm⟩
  unfold answer after at *
  cases hres : (malloc size grows).result s.heap with
  | error e =>
      rw [hres] at hp
      cases hp
  | ok x =>
      obtain ⟨r, t⟩ := x
      cases r with
      | error e => exact e.elim
      | ok q =>
          rw [hres] at hp
          obtain rfl : q = p := Option.some.inj hp
          rfl

/-- The start of a process whose memory is full of dead beef. -/
def littered : Process := start 9 fun _ => deadbeef

end Os161.Libc
