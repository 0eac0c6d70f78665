import Os161.Lib.Words
import Os161.Path.InPlace

set_option autoImplicit false

/-!
# Tokenising

`strtok_r` of `common/libc/string/strtok_r.c` on the memory that holds the string, and the loop
over its words that its callers write. A pointer is a position in the memory, `none` stands for
`NULL`. The calls give the words of the string in order, and write over the separators that end a
word only (`strtokLoop_words`).
-/

namespace Os161.Libc.Strtok

open Os161.Lib.Words
open Os161.Path (Str)
open Os161.Path.InPlace (nul StringAt charAt)

/-- Accesses to the memory that holds the string. -/
abbrev Access (α : Type) : Type := Except Path.InPlace.Stop α

/-! ## `strtok_r` -/

section Model

variable (seps : List Char)

/-- Skip any leading separators; the memory from `head` on. -/
def skipSepsFrom : List Char → Nat → Access Nat
  | [], _ => .error .outside
  | c :: rest, head =>
      if c ≠ nul ∧ c ∈ seps then skipSepsFrom rest (head + 1) else .ok head

/-- Skip over the word; the memory from `tail` on. -/
def skipWordFrom : List Char → Nat → Access Nat
  | [], _ => .error .outside
  | c :: rest, tail =>
      if c ≠ nul ∧ c ∉ seps then skipWordFrom rest (tail + 1) else .ok tail

/-- `strtok_r`: the word, the context and the memory after the call. -/
def strtokR (string context : Option Nat) (buf : List Char) :
    Access (Option Nat × Option Nat × List Char) :=
  let context := if string.isSome then string else context
  match context with
  | none => .ok (none, none, buf)
  | some head => do
      let head ← skipSepsFrom seps (buf.drop head) head
      let c ← charAt head buf
      if c = nul then .ok (none, none, buf)
      else do
        let tail ← skipWordFrom seps (buf.drop head) head
        let c ← charAt tail buf
        if c = nul then .ok (some head, none, buf)
        else .ok (some head, some (tail + 1), buf.set tail nul)

/-- The loop over the words: call `strtok_r` with `NULL` until it returns `NULL`. There is room
for `room` words; with more the loop is left with `none`. -/
def strtokLoop : Nat → Option Nat → Option Nat → List Nat → List Char →
    Access (Option (List Nat) × List Char)
  | _, none, _, words, buf => .ok (some words, buf)
  | 0, some _, _, _, buf => .ok (none, buf)
  | room + 1, some word, context, words, buf => do
      let (next, context, buf) ← strtokR seps none context buf
      strtokLoop room next context (words ++ [word]) buf

/-- The whole loop over the words of `string`. -/
def strtokWords (room string : Nat) (buf : List Char) :
    Access (Option (List Nat) × List Char) := do
  let (word, context, buf) ← strtokR seps (some string) none buf
  strtokLoop seps room word context [] buf

end Model

/-! ## One call -/

section Call

variable {seps : List Char} {buf : List Char} {head : Nat} {g w rest : Str} {s : Char}

/-- The separators as a test. -/
def isSep (seps : List Char) (c : Char) : Bool := decide (c ∈ seps)

theorem skipSepsFrom_append (g : Str) (hnul : nul ∉ g) (hg : ∀ c ∈ g, isSep seps c = true)
    (l : List Char) :
    ∀ i, skipSepsFrom seps (g ++ l) i = skipSepsFrom seps l (i + g.length) := by
  induction g with
  | nil => exact fun i => rfl
  | cons c g ih =>
      intro i
      rw [List.mem_cons, not_or] at hnul
      have hc : c ≠ nul ∧ c ∈ seps :=
        ⟨Ne.symm hnul.1, of_decide_eq_true (hg c List.mem_cons_self)⟩
      rw [List.cons_append, skipSepsFrom, if_pos hc,
        ih hnul.2 (fun d hd => hg d (List.mem_cons_of_mem c hd)), List.length_cons]
      congr 1
      omega

theorem skipWordFrom_append (w : Str) (hnul : nul ∉ w) (hw : ∀ c ∈ w, isSep seps c = false)
    (l : List Char) :
    ∀ i, skipWordFrom seps (w ++ l) i = skipWordFrom seps l (i + w.length) := by
  induction w with
  | nil => exact fun i => rfl
  | cons c w ih =>
      intro i
      rw [List.mem_cons, not_or] at hnul
      have hc : c ≠ nul ∧ c ∉ seps :=
        ⟨Ne.symm hnul.1, of_decide_eq_false (hw c List.mem_cons_self)⟩
      rw [List.cons_append, skipWordFrom, if_pos hc,
        ih hnul.2 (fun d hd => hw d (List.mem_cons_of_mem c hd)), List.length_cons]
      congr 1
      omega

theorem skipSepsFrom_stop {c : Char} (h : ¬ (c ≠ nul ∧ c ∈ seps)) (l : List Char) (i : Nat) :
    skipSepsFrom seps (c :: l) i = .ok i := if_neg h

theorem skipWordFrom_stop {c : Char} (h : ¬ (c ≠ nul ∧ c ∉ seps)) (l : List Char) (i : Nat) :
    skipWordFrom seps (c :: l) i = .ok i := if_neg h

theorem strtokR_null : strtokR seps none none buf = .ok (none, none, buf) := rfl

/-- Only separators are left: no word, and nothing is written. -/
theorem strtokR_seps (h : StringAt buf head g) (hg : ∀ c ∈ g, isSep seps c = true) :
    strtokR seps none (some head) buf = .ok (none, none, buf) := by
  obtain ⟨tail, htail⟩ := h.held
  have hskip : skipSepsFrom seps (buf.drop head) head = .ok (head + g.length) := by
    rw [htail, skipSepsFrom_append g h.noNul hg, skipSepsFrom_stop (fun h => h.1 rfl)]
  have hend : StringAt buf (head + g.length) [] := by
    rw [← List.append_nil g] at h
    exact h.suffix
  rw [strtokR]
  show (skipSepsFrom seps (buf.drop head) head >>= _) = _
  rw [hskip]
  show (charAt (head + g.length) buf >>= _) = _
  rw [hend.charAt_nil]
  rfl

/-- The word that the call gives and what is behind it. -/
theorem strtokR_found (tail : List Char) (h : StringAt buf head (g ++ (w ++ rest)))
    (hg : ∀ c ∈ g, isSep seps c = true) (hne : w ≠ []) (hw : ∀ c ∈ w, isSep seps c = false)
    (hskip : skipWordFrom seps (rest ++ nul :: tail) (head + g.length + w.length) =
      .ok (head + g.length + w.length))
    (htail : buf.drop head = g ++ (w ++ rest) ++ nul :: tail) :
    strtokR seps none (some head) buf =
      (charAt (head + g.length + w.length) buf).bind fun c =>
        if c = nul then .ok (some (head + g.length), none, buf)
        else .ok (some (head + g.length), some (head + g.length + w.length + 1),
          buf.set (head + g.length + w.length) nul) := by
  have hnul := h.noNul
  rw [List.mem_append, List.mem_append, not_or, not_or] at hnul
  obtain ⟨hgnul, hwnul, -⟩ := hnul
  obtain ⟨c, w', rfl⟩ := List.exists_cons_of_ne_nil hne
  have hc : ¬ (c ≠ nul ∧ c ∈ seps) := fun hc =>
    absurd hc.2 (of_decide_eq_false (hw c List.mem_cons_self))
  have hcnul : c ≠ nul := fun heq => hwnul (heq ▸ List.mem_cons_self)
  have hhead : skipSepsFrom seps (buf.drop head) head = .ok (head + g.length) := by
    rw [htail, List.append_assoc, skipSepsFrom_append g hgnul hg, List.append_assoc,
      List.cons_append, skipSepsFrom_stop hc]
  have hword : skipWordFrom seps (buf.drop (head + g.length)) (head + g.length) =
      .ok (head + g.length + (c :: w').length) := by
    rw [← List.drop_drop, htail, List.append_assoc, List.drop_left, List.append_assoc,
      skipWordFrom_append _ hwnul hw, hskip]
  have hat : charAt (head + g.length) buf = .ok c := h.suffix.charAt_cons
  rw [strtokR]
  show (skipSepsFrom seps (buf.drop head) head >>= _) = _
  rw [hhead]
  show (charAt (head + g.length) buf >>= _) = _
  rw [hat]
  show (if c = nul then _ else _) = _
  rw [if_neg hcnul, hword]
  rfl

/-- The last word: the context becomes `NULL`, and nothing is written. -/
theorem strtokR_last (h : StringAt buf head (g ++ w)) (hg : ∀ c ∈ g, isSep seps c = true)
    (hne : w ≠ []) (hw : ∀ c ∈ w, isSep seps c = false) :
    strtokR seps none (some head) buf = .ok (some (head + g.length), none, buf) := by
  obtain ⟨tail, htail⟩ := h.held
  have h' : StringAt buf head (g ++ (w ++ [])) := by rwa [List.append_nil]
  have hend : StringAt buf (head + g.length + w.length) [] := h'.suffix.suffix
  rw [strtokR_found tail h' hg hne hw (skipWordFrom_stop (fun h => h.1 rfl) _ _)
    (by rwa [List.append_nil]), hend.charAt_nil]
  rfl

/-- A word with a separator behind it: the separator becomes the end of the word, and the context
points behind it. -/
theorem strtokR_word (h : StringAt buf head (g ++ (w ++ s :: rest)))
    (hg : ∀ c ∈ g, isSep seps c = true) (hne : w ≠ []) (hw : ∀ c ∈ w, isSep seps c = false)
    (hs : isSep seps s = true) :
    strtokR seps none (some head) buf = .ok (some (head + g.length),
      some (head + g.length + w.length + 1), buf.set (head + g.length + w.length) nul) := by
  obtain ⟨tail, htail⟩ := h.held
  have hsep : s ∈ seps := of_decide_eq_true hs
  have hsnul : s ≠ nul := by
    rintro rfl
    apply h.noNul
    simp
  have hat : charAt (head + g.length + w.length) buf = .ok s := h.suffix.suffix.charAt_cons
  rw [strtokR_found tail h hg hne hw (skipWordFrom_stop (fun h => h.2 hsep) _ _) htail, hat]
  show (if s = nul then _ else _) = _
  rw [if_neg hsnul]

end Call

/-! ## The loop -/

section Loop

variable {seps : List Char} {buf buf' : List Char} {head path room : Nat} {str w : Str}

/-- A string is where the memory agrees with one that holds it. -/
theorem StringAt_congr (h : StringAt buf head w)
    (hsame : ∀ i, head ≤ i → i ≤ head + w.length → buf'[i]? = buf[i]?) :
    StringAt buf' head w := by
  refine ⟨h.noNul, ?_⟩
  obtain ⟨rest, hrest⟩ := h.held
  have hpre : w ++ [nul] <+: buf'.drop head := by
    rw [List.prefix_iff_getElem?]
    intro i hi
    rw [List.length_append, List.length_singleton] at hi
    have hget : (buf.drop head)[i]? = (w ++ [nul])[i]? := by
      rw [hrest, ← List.singleton_append, ← List.append_assoc, List.getElem?_append_left]
      simpa using hi
    rw [List.getElem?_drop] at hget ⊢
    rw [hsame _ (Nat.le_add_right head i) (by omega), hget, List.getElem?_eq_getElem]
  obtain ⟨rest', hrest'⟩ := hpre
  exact ⟨rest', by rw [← hrest', List.append_assoc, List.singleton_append]⟩

/-- What the loop over the words of `str` writes: nothing outside of the string, and inside only
the end of a word over a separator. -/
structure Written (seps : List Char) (head : Nat) (str : Str) (buf buf' : List Char) : Prop where
  outside : ∀ i, i < head ∨ head + str.length ≤ i → buf'[i]? = buf[i]?
  ends : ∀ i, buf'[i]? = buf[i]? ∨
    ∃ a ∈ wordsFrom (isSep seps) true head str, i = a.1 + a.2.length ∧
      (∃ s ∈ seps, buf[i]? = some s) ∧ buf'[i]? = some nul

theorem Written.refl (seps : List Char) (head : Nat) (str : Str) (buf : List Char) :
    Written seps head str buf buf := ⟨fun _ _ => rfl, fun _ => .inl rfl⟩

/-- One word and the loop over the rest of the string. -/
theorem Written.word {g rest : Str} {s : Char} (h : StringAt buf head (g ++ (w ++ s :: rest)))
    (hs : isSep seps s = true)
    (hwords : wordsFrom (isSep seps) true head (g ++ (w ++ s :: rest)) = (head + g.length, w) ::
      wordsFrom (isSep seps) true (head + g.length + w.length + 1) rest)
    (hrest : Written seps (head + g.length + w.length + 1) rest
      (buf.set (head + g.length + w.length) nul) buf') :
    Written seps head (g ++ (w ++ s :: rest)) buf buf' := by
  have hlen : (g ++ (w ++ s :: rest)).length = g.length + w.length + 1 + rest.length := by
    simp only [List.length_append, List.length_cons]
    omega
  have hne : ∀ i, i ≠ head + g.length + w.length →
      (buf.set (head + g.length + w.length) nul)[i]? = buf[i]? := fun i hi =>
    List.getElem?_set_ne (Ne.symm hi)
  refine ⟨fun i hi => ?_, fun i => ?_⟩
  · rw [hlen] at hi
    rw [hrest.outside i (by omega), hne i (by omega)]
  · rw [hwords]
    by_cases hi : i = head + g.length + w.length
    · -- the separator behind the word
      subst hi
      have hget : buf[head + g.length + w.length]? = some s := by
        obtain ⟨tail, htail⟩ := h.suffix.suffix.held
        rw [← List.head?_drop, htail]
        rfl
      have hlt : head + g.length + w.length < buf.length := by
        by_contra hge
        rw [List.getElem?_eq_none (Nat.le_of_not_lt hge)] at hget
        cases hget
      refine .inr ⟨_, List.mem_cons_self, rfl, ⟨s, of_decide_eq_true hs, hget⟩, ?_⟩
      rw [hrest.outside _ (.inl (Nat.lt_succ_self _)), List.getElem?_set_self hlt]
    · rcases hrest.ends i with hsame | ⟨a, ha, hia, hsep, hnul⟩
      · exact .inl (hsame.trans (hne i hi))
      · exact .inr ⟨a, List.mem_cons_of_mem _ ha, hia, by rwa [hne i hi] at hsep, hnul⟩

theorem strtokLoop_none (room : Nat) (context : Option Nat) (words : List Nat) :
    strtokLoop seps room none context words buf = .ok (some words, buf) := by
  cases room <;> rfl

/-- What the loop from a call on gives, and what it does to the memory. -/
def Next (seps : List Char) (room : Nat) (str : Str) (head : Nat) (buf : List Char)
    (words : List Nat) : Prop :=
  ∃ buf',
    (do let (next, context, buf) ← strtokR seps none (some head) buf
        strtokLoop seps room next context words buf) =
      .ok (if (wordsFrom (isSep seps) true head str).length ≤ room then
          some (words ++ (wordsFrom (isSep seps) true head str).map Prod.fst)
        else none, buf') ∧
    Written seps head str buf buf' ∧
    ((wordsFrom (isSep seps) true head str).length ≤ room →
      ∀ a ∈ wordsFrom (isSep seps) true head str, StringAt buf' a.1 a.2)

theorem Next.of_seps (h : StringAt buf head str) (hg : ∀ c ∈ str, isSep seps c = true)
    (room : Nat) (words : List Nat) : Next seps room str head buf words := by
  have hnil : wordsFrom (isSep seps) true head str = [] := by
    have hseps := wordsFrom_seps (l := []) str hg head
    rwa [List.append_nil] at hseps
  refine ⟨buf, ?_, Written.refl _ _ _ _, ?_⟩
  · rw [strtokR_seps h hg, hnil]
    show strtokLoop seps _ none none words buf = _
    rw [strtokLoop_none, List.map_nil, List.append_nil, List.length_nil,
      if_pos (Nat.zero_le room)]
  · rw [hnil]
    exact fun _ a ha => nomatch ha

theorem Next.of_last {g : Str} (h : StringAt buf head (g ++ w))
    (hg : ∀ c ∈ g, isSep seps c = true) (hne : w ≠ []) (hw : ∀ c ∈ w, isSep seps c = false)
    (room : Nat) (words : List Nat) : Next seps room (g ++ w) head buf words := by
  have hone : wordsFrom (isSep seps) true head (g ++ w) = [(head + g.length, w)] := by
    rw [wordsFrom_seps g hg, wordsFrom_last hne hw]
  refine ⟨buf, ?_, Written.refl _ _ _ _, ?_⟩
  · rw [strtokR_last h hg hne hw, hone]
    cases room with
    | zero => rfl
    | succ room =>
        show strtokLoop seps room none none (words ++ [head + g.length]) buf = _
        have hfits : [(head + g.length, w)].length ≤ room + 1 := Nat.le_add_left 1 room
        rw [strtokLoop_none, if_pos hfits]
        rfl
  · rw [hone]
    intro _ a ha
    rw [List.mem_singleton.1 ha]
    exact h.suffix

/-- The loop from a call on, by the room that is left for words. -/
theorem strtokLoop_next (room : Nat) :
    ∀ str head buf words, StringAt buf head str → Next seps room str head buf words := by
  induction room with
  | zero =>
      intro str head buf words h
      cases scan (isSep seps) str with
      | seps _ hg => exact Next.of_seps h hg 0 words
      | last g w hg hne hw => exact Next.of_last h hg hne hw 0 words
      | word g w s l hg hne hw hs =>
          have hwords := (wordsFrom_seps g hg head).trans
            (wordsFrom_word (l := l) hne hw hs (head + g.length))
          refine ⟨_, ?_, Written.word h hs hwords (Written.refl _ _ _ _), ?_⟩
          · rw [strtokR_word h hg hne hw hs, hwords]
            rfl
          · rw [hwords]
            exact fun hle => absurd hle (Nat.not_succ_le_zero _)
  | succ room ih =>
      intro str head buf words h
      cases scan (isSep seps) str with
      | seps _ hg => exact Next.of_seps h hg (room + 1) words
      | last g w hg hne hw => exact Next.of_last h hg hne hw (room + 1) words
      | word g w s l hg hne hw hs =>
          have hwords := (wordsFrom_seps g hg head).trans
            (wordsFrom_word (l := l) hne hw hs (head + g.length))
          have h' : StringAt buf (head + g.length) (w ++ s :: l) := h.suffix
          obtain ⟨buf', hrun, hwritten, hstrings⟩ := ih l (head + g.length + w.length + 1)
            (buf.set (head + g.length + w.length) nul) (words ++ [head + g.length]) h'.cut_right
          refine ⟨buf', ?_, Written.word h hs hwords hwritten, ?_⟩
          · rw [strtokR_word h hg hne hw hs, hwords]
            show (strtokR seps none (some (head + g.length + w.length + 1)) _ >>= _) = _
            refine hrun.trans ?_
            simp
          · rw [hwords]
            intro hle a ha
            rcases List.mem_cons.1 ha with rfl | ha
            · -- the loop over the rest does not touch the word
              exact StringAt_congr h'.cut_left fun i _ hi =>
                hwritten.outside i (.inl (Nat.lt_succ_of_le hi))
            · exact hstrings (Nat.le_of_succ_le_succ hle) a ha

/-- The words of `string` when there is room for them; `none` when there are more. -/
theorem strtokWords_eq (seps : List Char) (h : StringAt buf path str) (room : Nat) : ∃ buf',
    strtokWords seps room path buf =
      .ok (if (wordsFrom (isSep seps) true path str).length ≤ room then
          some ((wordsFrom (isSep seps) true path str).map Prod.fst)
        else none, buf') ∧
    Written seps path str buf buf' ∧
    ((wordsFrom (isSep seps) true path str).length ≤ room →
      ∀ a ∈ wordsFrom (isSep seps) true path str, StringAt buf' a.1 a.2) :=
  strtokLoop_next room str path buf [] h

/-- The pointers are the words of the string, and the memory is the one behind the loop. -/
structure Tokenised (seps : List Char) (path : Nat) (str : Str) (buf : List Char)
    (ptrs : List Nat) (buf' : List Char) : Prop where
  ordered : ptrs.Pairwise (· < ·)
  mem_iff : ∀ ptr, ptr ∈ ptrs ↔ ∃ k w, ptr = path + k ∧ IsWord (isSep seps) str k w
  terminated : ∀ k w, IsWord (isSep seps) str k w → StringAt buf' (path + k) w
  written : ∀ i, buf'[i]? = buf[i]? ∨ ∃ k w, IsWord (isSep seps) str k w ∧
    i = path + k + w.length ∧ (∃ s ∈ seps, buf[i]? = some s) ∧ buf'[i]? = some nul

/-- With room for as many words as the string has characters the calls end with `NULL`, and they
have given the words of the string. -/
theorem strtokWords_tokenised (h : StringAt buf path str) (hroom : str.length ≤ room) :
    ∃ ptrs buf', strtokWords seps room path buf = .ok (some ptrs, buf') ∧
      Tokenised seps path str buf ptrs buf' := by
  obtain ⟨buf', hrun, hwritten, hstrings⟩ := strtokWords_eq seps h room
  have hle : (wordsFrom (isSep seps) true path str).length ≤ room :=
    Nat.le_trans (length_wordsFrom_le str true path) hroom
  rw [if_pos hle] at hrun
  have hmem : ∀ j w, (j, w) ∈ wordsFrom (isSep seps) true path str ↔
      ∃ k, j = path + k ∧ IsWord (isSep seps) str k w := by
    intro j w
    rw [mem_wordsFrom_iff]
    simp
  refine ⟨_, buf', hrun, ?_, fun ptr => ?_, fun k w hw => ?_, fun i => ?_⟩
  · exact List.pairwise_map.2 (wordsFrom_pairwise str true path)
  · rw [List.mem_map]
    constructor
    · rintro ⟨⟨j, w⟩, ha, rfl⟩
      obtain ⟨k, hk, hw⟩ := (hmem j w).1 ha
      exact ⟨k, w, hk, hw⟩
    · rintro ⟨k, w, rfl, hw⟩
      exact ⟨(path + k, w), (hmem _ w).2 ⟨k, rfl, hw⟩, rfl⟩
  · exact hstrings hle (path + k, w) ((hmem _ w).2 ⟨k, rfl, hw⟩)
  · rcases hwritten.ends i with hsame | ⟨⟨j, w⟩, ha, hi, hsep, hnul⟩
    · exact .inl hsame
    · obtain ⟨k, rfl, hw⟩ := (hmem j w).1 ha
      exact .inr ⟨k, w, hw, hi, hsep, hnul⟩

end Loop

end Os161.Libc.Strtok
