import Os161.Semfs.Creating
import Os161.Sfs.Moving

set_option autoImplicit false

/-!
# Listing the directory

`semfs_getdirentry` of `kern/fs/semfs/semfs_vnops.c`: the offset is the place of an entry, but it
moves on by the length of the name; and a place that `semfs_remove` has left empty is used like the
others. A caller who reads from the offset `0` sees every name in the runs in which no entry is
taken out again and all names but the last are one byte long.
-/

namespace Os161.Semfs.Directory

open Os161.Lib.Calls
open Os161.Lib.Runs
open Os161.Sfs (Uio)

inductive ListPanic where
  /-- `dent->semd_name` with `dent == NULL`. -/
  | nullEntry
  /-- A panic of `uiomove`. -/
  | uiomove (p : Sfs.Panic)
  deriving DecidableEq, Repr

/-- `semfs_getdirentry` for an offset that is not negative. -/
def getdirentry (s : Fs) (uio : Uio) : Except ListPanic (Except Sfs.Errno Unit × Uio) :=
  -- `unsigned pos`
  let pos := uio.offset % 2 ^ 32
  if s.dents.elems.length ≤ pos then .ok (.ok (), uio)
  else
    match s.dents.elems[pos]? with
    | some (some (name, _)) =>
        match (Sfs.uiomove name.length name).result uio with
        | .ok (r, uio) => .ok (r.map fun _ => (), uio)
        | .error p => .error (.uiomove p)
    | _ => .error .nullEntry

/-- A buffer of `buflen` bytes, for a read from `offset` on. -/
def buffer (buflen : UInt32) (offset : Nat) : Uio where
  iov := [List.replicate buflen.toNat (some 0)]
  offset := offset
  resid := buflen
  rw := .read
  out := []

/-- What a caller reads from `offset` on, one entry after the other, until it gets 0 bytes. -/
inductive Lists (s : Fs) (buflen : UInt32) : Nat → List Name → Prop where
  | stop {offset : Nat} {uio : Uio} : getdirentry s (buffer buflen offset) = .ok (.ok (), uio) →
      uio.out = [] → Lists s buflen offset []
  | next {offset : Nat} {uio : Uio} {names : List Name} :
      getdirentry s (buffer buflen offset) = .ok (.ok (), uio) → uio.out ≠ [] →
      Lists s buflen uio.offset names → Lists s buflen offset (uio.out :: names)

/-- No read uses an empty place, and a caller whose buffer has room for the names sees each of them
once. -/
structure Listed (s : Fs) : Prop where
  safe : ∀ uio : Uio, uio.offset < 2 ^ 63 → getdirentry s uio ≠ .error .nullEntry
  complete : ∀ buflen : UInt32, (∀ i name n, s.Entry i name n → name.length ≤ buflen.toNat) →
    ∃ names, Lists s buflen 0 names ∧ names.Nodup ∧ ∀ name, name ∈ names ↔ ∃ i n, s.Entry i name n

/-- An entry that is put into the directory keeps its vnode; its name is not empty, all other names
are one byte long, and the offset behind it is behind the last place. No entry is taken out. -/
def Tame (s : Fs) : Op → Prop
  | .creat name _ => s.Puts name → ¬ s.VnodeFails name ∧ name ≠ [] ∧
      (∀ i name' n, s.Entry i name' n → name'.length = 1) ∧
      s.dents.elems.length < (s.dents.elems.length + name.length) % 2 ^ 32
  | .remove name => isDots name = false → findDent name s.dents.elems = none
  | _ => True

/-! ## Directories that are listed -/

/-- There is no empty place, and all names but the last are one byte long. -/
structure Orderly (s : Fs) : Prop where
  full : ∀ i < s.dents.elems.length, ∃ name n, s.Entry i name n
  ones : ∀ i name n, s.Entry i name n → i + 1 < s.dents.elems.length → name.length = 1
  last : ∀ i name n, s.Entry i name n → i + 1 = s.dents.elems.length →
    name ≠ [] ∧ s.dents.elems.length ≤ (i + name.length) % 2 ^ 32

section Orderly

variable {s t : Fs} {buflen : UInt32} {k n : Nat} {name : Name}

theorem Fs.Entry.lt (h : s.Entry k name n) : k < s.dents.elems.length :=
  (List.getElem?_eq_some_iff.1 h).1

/-- A read behind the last place gives nothing. -/
theorem lists_stop (h : s.dents.elems.length ≤ k % 2 ^ 32) : Lists s buflen k [] :=
  .stop (if_pos h) rfl

/-- One read. -/
theorem getdirentry_buffer (hk : s.Entry (k % 2 ^ 32) name n)
    (hlen : name.length ≤ buflen.toNat) :
    ∃ uio, getdirentry s (buffer buflen k) = .ok (.ok (), uio) ∧ uio.out = name ∧
      uio.offset = k + name.length := by
  have hholds : (buffer buflen k).Holds (List.replicate buflen.toNat 0) := by
    rw [Sfs.Uio.Holds, List.map_replicate]
    exact List.flatten_singleton
  have hwp : wp (fun _ => False) (Sfs.uiomove name.length name) (fun r v =>
      (∃ bs, r = .ok bs) ∧ Sfs.Moved (buffer buflen k) name.length name v) (buffer buflen k) :=
    Sfs.wp_uiomove_of hholds (by rwa [List.length_replicate]) hlen fun v hv => ⟨⟨_, rfl⟩, hv⟩
  obtain ⟨_, v, hv, ⟨bs, rfl⟩, hmoved⟩ := wp.exists_result hwp
  refine ⟨v, ?_, ?_, hmoved.offset⟩
  · have hplace : s.dents.elems[k % 2 ^ 32]? = some (some (name, n)) := hk
    rw [getdirentry, show (buffer buflen k).offset = k from rfl, if_neg (Nat.not_le.2 hk.lt), hplace]
    dsimp only
    rw [hv]
    rfl
  · rw [hmoved.out, show (buffer buflen k).rw = .read from rfl, if_pos rfl, List.take_length]
    exact List.nil_append name

/-- What is seen from the place `k` on. -/
theorem Orderly.lists (ho : Orderly s) (he : Entries s) (hlt : s.dents.elems.length < 2 ^ 32)
    (hroom : ∀ i name n, s.Entry i name n → name.length ≤ buflen.toNat) (m : Nat) :
    ∀ k, k + m = s.dents.elems.length → ∃ names, Lists s buflen k names ∧ names.Nodup ∧
      ∀ name, name ∈ names ↔ ∃ i n, k ≤ i ∧ s.Entry i name n := by
  -- the induction is on the number of places from `k` on
  induction m with
  | zero =>
      intro k hk
      have hend : s.dents.elems.length ≤ k % 2 ^ 32 := by omega
      refine ⟨[], lists_stop hend, List.nodup_nil, fun name => ?_⟩
      simp only [List.not_mem_nil, false_iff]
      rintro ⟨i, n, hi, hentry⟩
      have hlt := hentry.lt
      omega
  | succ m ih =>
      intro k hk
      obtain ⟨name, n, hentry⟩ := ho.full k (by omega)
      have hmod : k % 2 ^ 32 = k := by omega
      have hentry' : s.Entry (k % 2 ^ 32) name n := by rwa [hmod]
      obtain ⟨uio, hread, hout, hoffset⟩ := getdirentry_buffer hentry' (hroom k name n hentry)
      -- what the reads after this one give
      have hrest : name ≠ [] ∧ ∃ names, Lists s buflen (k + name.length) names ∧ names.Nodup ∧
          ∀ name, name ∈ names ↔ ∃ i n, k + 1 ≤ i ∧ s.Entry i name n := by
        by_cases hlast : k + 1 = s.dents.elems.length
        · obtain ⟨hne, hend⟩ := ho.last k name n hentry hlast
          refine ⟨hne, [], lists_stop hend, List.nodup_nil, fun name' => ?_⟩
          simp only [List.not_mem_nil, false_iff]
          rintro ⟨i, n', hi, hentry'⟩
          have hlt := hentry'.lt
          omega
        · have hone := ho.ones k name n hentry (by omega)
          rw [hone]
          refine ⟨?_, ih (k + 1) (by omega)⟩
          rintro rfl
          cases hone
      obtain ⟨hne, names, hlists, hnodup, hmem⟩ := hrest
      refine ⟨name :: names, ?_, List.nodup_cons.2 ⟨fun hin => ?_, hnodup⟩, fun name' => ?_⟩
      · subst hout
        rw [← hoffset] at hlists
        exact .next hread hne hlists
      · obtain ⟨i, n', hi, hentry'⟩ := (hmem name).1 hin
        have heq := he.names i k name n' n hentry' hentry
        omega
      · rw [List.mem_cons, hmem]
        constructor
        · rintro (rfl | ⟨i, n', hi, hentry'⟩)
          · exact ⟨k, n, Nat.le_refl k, hentry⟩
          · exact ⟨i, n', by omega, hentry'⟩
        · rintro ⟨i, n', hi, hentry'⟩
          rcases Nat.eq_or_lt_of_le hi with rfl | hi
          · cases hentry.symm.trans hentry'
            exact .inl rfl
          · exact .inr ⟨i, n', hi, hentry'⟩

theorem Orderly.listed (ho : Orderly s) (he : Entries s) : Listed s := by
  have hlt : s.dents.elems.length < 2 ^ 32 := by
    rcases Nat.eq_zero_or_pos s.dents.elems.length with hzero | hpos
    · rw [hzero]
      decide
    · obtain ⟨name, n, hentry⟩ := ho.full (s.dents.elems.length - 1) (by omega)
      obtain ⟨-, hend⟩ := ho.last _ name n hentry (by omega)
      omega
  refine ⟨fun uio _ hnull => ?_, fun buflen hroom => ?_⟩
  · rw [getdirentry] at hnull
    split_ifs at hnull with hend
    obtain ⟨name, n, hentry⟩ := ho.full (uio.offset % 2 ^ 32) (Nat.not_le.1 hend)
    rw [show s.dents.elems[uio.offset % 2 ^ 32]? = some (some (name, n)) from hentry] at hnull
    dsimp only at hnull
    cases hmove : (Sfs.uiomove name.length name).result uio with
    | ok x =>
        rw [hmove] at hnull
        cases hnull
    | error p =>
        rw [hmove] at hnull
        cases hnull
  · obtain ⟨names, hlists, hnodup, hmem⟩ :=
      ho.lists he hlt hroom s.dents.elems.length 0 (Nat.zero_add _)
    refine ⟨names, hlists, hnodup, fun name => ?_⟩
    rw [hmem]
    simp

/-- A call that is tame. -/
theorem Orderly.step {o : Op} (ho : Orderly s) (htame : Tame s o) (h : DirChange s o t) :
    Orderly t := by
  cases h with
  | same hdents =>
      have hentry : t.Entry = s.Entry := by
        funext i name n
        rw [Fs.Entry, hdents]
        rfl
      refine ⟨?_, ?_, ?_⟩ <;> rw [hentry, hdents]
      · exact ho.full
      · exact ho.ones
      · exact ho.last
  | failed hfails => exact absurd hfails (htame hfails.toPuts).1
  | @added name excl i n _ hputs hput =>
      obtain ⟨-, hne, hones, hend⟩ := htame hputs
      -- the directory was full, so the new entry is at its end
      have hlen := hput.length
      have hlt := hput.lt
      have hi : i = s.dents.elems.length := by
        by_contra hi
        obtain ⟨name', n', hentry⟩ := ho.full i (by omega)
        exact hput.old _ hentry
      have hiff : ∀ j name' m, t.Entry j name' m ↔
          (j = i ∧ (name', m) = (name, n)) ∨ s.Entry j name' m := fun j name' m =>
        hput.at_iff j (name', m)
      refine ⟨fun j hj => ?_, fun j name' m hj hlast => ?_, fun j name' m hj hlast => ?_⟩
      · rcases Nat.lt_or_ge j s.dents.elems.length with hold | hnew
        · obtain ⟨name', m, hentry⟩ := ho.full j hold
          exact ⟨name', m, (hiff j name' m).2 (.inr hentry)⟩
        · exact ⟨name, n, (hiff j name n).2 (.inl ⟨by omega, rfl⟩)⟩
      · rcases (hiff j name' m).1 hj with ⟨hji, -⟩ | hentry
        · omega
        · exact hones j name' m hentry
      · rcases (hiff j name' m).1 hj with ⟨hji, heq⟩ | hentry
        · cases heq
          refine ⟨hne, ?_⟩
          rw [hji, hi]
          omega
        · have hold := hentry.lt
          omega
  | removed hdots hi hdents =>
      exact absurd hi (findDent_eq_none.1 (htame hdots) _ _)

/-- In a run of tame calls the directory is always listed. -/
theorem listed_of_tame {memory : Nat → Bool} (h : Reach Step Tame (created memory) s) :
    Listed s := by
  have hinv : Tables s ∧ Entries s ∧ Orderly s := by
    refine h.invariant (I := fun s => Tables s ∧ Entries s ∧ Orderly s)
      (fun s o t hs htame hstep => ?_) ⟨tables_created, entries_created, ⟨?_, ?_, ?_⟩⟩
    · obtain ⟨htables, hentries, ho⟩ := hs
      obtain ⟨ht, ht', hchange⟩ := step_dirChange htables hentries hstep
      exact ⟨ht, ht', ho.step htame hchange⟩
    · intro i hi
      exact absurd hi (Nat.not_lt_zero i)
    · intro i name n hentry
      cases hentry
    · intro i name n hentry
      cases hentry
  exact hinv.2.2.listed hinv.2.1

end Orderly

/-- The state after a call, when it returns. -/
def exec (s : Fs) (o : Op) : Option Fs :=
  match o.run.result s with
  | .ok (.ok (), t) => some t
  | _ => none

theorem step_of_exec {s t : Fs} {o : Op} (h : exec s o = some t) : Step s o t := by
  rw [exec] at h
  split at h
  · cases h
    assumption
  · cases h

/-- Two semaphores with names of one byte. -/
theorem listed_two : ∃ s, Reach Step Tame (created fun _ => true) s ∧
    s.dents.elems = [some ([97], 0), some ([98], 1)] ∧ Listed s := by
  have hfirst : ((exec (created fun _ => true) (.creat [97] true)).map fun t =>
      (t.dents.elems, t.memory t.vnodeKmalloc, t.memory (t.vnodeKmalloc + 1))) =
      some ([some ([97], 0)], true, true) := by decide +kernel
  have hsecond : (((exec (created fun _ => true) (.creat [97] true)).bind fun t =>
      exec t (.creat [98] true)).map fun u => u.dents.elems) =
      some [some ([97], 0), some ([98], 1)] := by decide +kernel
  obtain ⟨t, ht, hvalues⟩ := Option.map_eq_some_iff.1 hfirst
  obtain ⟨hdents, hmem, hmem'⟩ : t.dents.elems = [some ([97], 0)] ∧
      t.memory t.vnodeKmalloc = true ∧ t.memory (t.vnodeKmalloc + 1) = true := by
    simpa using hvalues
  rw [ht] at hsecond
  obtain ⟨u, hu, hdents'⟩ := Option.map_eq_some_iff.1 hsecond
  have htame : Tame (created fun _ => true) (.creat [97] true) := fun _ =>
    ⟨fun h => h.fails ⟨rfl, fun _ => rfl⟩, by decide, fun i name n h => (by cases h), by decide⟩
  have htame' : Tame t (.creat [98] true) := fun _ => by
    refine ⟨fun h => h.fails ⟨hmem, fun _ => hmem'⟩, by decide, fun i name n h => ?_, ?_⟩
    · rw [Fs.Entry, hdents] at h
      rcases i with _ | i
      · cases h
        rfl
      · cases h
    · rw [hdents]
      decide
  have hreach : Reach Step Tame (created fun _ => true) u :=
    (Reach.refl.tail htame (step_of_exec ht)).tail htame' (step_of_exec hu)
  exact ⟨u, hreach, hdents', listed_of_tame hreach⟩

/-- After `"a"` has been created and removed, the read at the offset `0` uses an empty place; and
when there are `"ab"` and `"c"`, the read after the one of `"ab"` gives nothing. -/
theorem listing_fails :
    (∃ s, Reach Step anyStep (created fun _ => true) s ∧
      getdirentry s (buffer 16 0) = .error .nullEntry ∧ ¬ Listed s) ∧
    ∃ s, Reach Step anyStep (created fun _ => true) s ∧
      s.dents.elems = [some ([97, 98], 0), some ([99], 1)] ∧ Lists s 16 0 [[97, 98]] := by
  have hgap : ((runAll exec (created fun _ => true) [.creat [97] true, .remove [97]]).map fun s =>
      s.dents.elems) = some [none] := by decide +kernel
  have hlong : ((runAll exec (created fun _ => true)
      [.creat [97, 98] true, .creat [99] true]).map fun s => s.dents.elems) =
      some [some ([97, 98], 0), some ([99], 1)] := by decide +kernel
  constructor
  · obtain ⟨s, hs, hdents⟩ := Option.map_eq_some_iff.1 hgap
    have hnull : getdirentry s (buffer 16 0) = .error .nullEntry := by
      rw [getdirentry, hdents]
      rfl
    exact ⟨s, reach_of_runAll (fun _ _ _ => step_of_exec) _ .refl hs, hnull,
      fun h => h.safe (buffer 16 0) (by decide) hnull⟩
  · obtain ⟨s, hs, hdents⟩ := Option.map_eq_some_iff.1 hlong
    refine ⟨s, reach_of_runAll (fun _ _ _ => step_of_exec) _ .refl hs, hdents, ?_⟩
    have hentry : s.Entry (0 % 2 ^ 32) [97, 98] 0 := by
      rw [Fs.Entry, hdents]
      rfl
    have hroom : ([97, 98] : Name).length ≤ (16 : UInt32).toNat := by decide
    obtain ⟨uio, hread, hout, hoffset⟩ := getdirentry_buffer hentry hroom
    have hend : Lists s 16 uio.offset [] := by
      rw [hoffset]
      refine lists_stop ?_
      rw [hdents]
      decide
    have hlists : Lists s 16 0 [uio.out] := .next hread (by rw [hout]; decide) hend
    rwa [hout] at hlists

end Os161.Semfs.Directory
