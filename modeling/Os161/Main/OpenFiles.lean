import Os161.Main.Calls
import Os161.Vfs.Counts

set_option autoImplicit false

/-!
# Descriptors, open files and vnodes over whole runs

Three properties of every state of a run, each with the condition on the actions under which it
holds: no table refers to a freed file; a file leaves the global table with its last descriptor;
and the file layer holds one reference on a vnode for every slot that refers to a file on it.
None of them holds of all runs. Closing a duplicate frees it without looking at its reference
count, a duplicate's reference on its original is never given back, and closing a shared file
keeps the reference on its vnode.
-/

namespace Os161.Main

open Os161.Lib.Runs
open Os161.Lib.Slots
open Os161.Vfs
open Os161.Proc
open Os161.Syscall

/-! ## No descriptor dangles -/

/-- Every file that a process or the global table refers to is allocated. -/
structure NoDangling (s : Kernel) : Prop where
  process : ∀ p P i r, s.procs p = some P → P.pFiletable.files i = some r → s.heap r ≠ none
  table : ∀ i r, s.gft.openFiles i = some r → s.heap r ≠ none

theorem noDangling_of_wf {s : Kernel} (h : (Ledger.of s).WF) : NoDangling s where
  process p P i r hP hr := by
    have hrow : (Ledger.of s).row p i = some r := by
      rw [← hr]
      exact congrFun (rowOf_some hP) i
    obtain ⟨f, hf, -⟩ := h.slots p i r hrow
    have hf' : s.heap r = some f := hf
    simp [hf']
  table i r hr := by
    by_cases hi : i.val < 3
    · have e : r = i.val := Option.some.inj (hr.symm.trans (h.openStd i hi))
      subst e
      obtain ⟨f, hf, -⟩ := h.std i.val hi
      have hf' : s.heap i.val = some f := hf
      simp [hf']
    · obtain ⟨-, f, hf, -⟩ := h.openReg i r (not_lt.1 hi) hr
      have hf' : s.heap r = some f := hf
      simp [hf']

/-- In a run that closes duplicates only where no other slot refers to them, no reference
dangles. -/
theorem noDangling_of_closesSoleDups {s : Kernel} (h : Reach step ClosesSoleDups boot s) :
    NoDangling s :=
  noDangling_of_wf (wf_of_reach (fun _ _ ha => ha) h)

/-- A run that duplicates, forks, exits and closes within the condition. -/
def soleRun : List Action :=
  openOne ++ [⟨1, .dup2 3 5 true⟩, ⟨1, .fork forkOk⟩, ⟨2, .exit 0 true⟩, ⟨1, .close 5⟩,
    ⟨1, .close 3⟩]

theorem noDangling_soleRun :
    ∃ s, execChecked closesSoleDups boot soleRun = some s ∧ NoDangling s := by
  have hrun : (execChecked closesSoleDups boot soleRun).isSome = true := by decide +kernel
  obtain ⟨s, hs⟩ := Option.isSome_iff_exists.1 hrun
  refine ⟨s, hs, noDangling_of_closesSoleDups ?_⟩
  refine reach_of_execChecked (fun t a ht hc => ?_) soleRun .refl hs
  exact closesSoleDups_sound (wf_of_reach (fun _ _ ha => ha) ht) hc

/-- The child closes a duplicate that its parent still refers to. -/
def danglingRun : List Action :=
  openOne ++ [⟨1, .dup2 3 5 true⟩, ⟨1, .fork forkOk⟩, ⟨2, .close 5⟩]

theorem not_noDangling_of_anyStep : ¬ ∀ s, Reach step anyStep boot s → NoDangling s := by
  intro h
  have hrun : ((execAll boot danglingRun).any fun s => (s.procs 1).any fun P =>
      (P.pFiletable.files 4).any fun r => (s.heap r).isNone) = true := by decide +kernel
  obtain ⟨s, hs, hbad⟩ := (Option.any_eq_true _ _).1 hrun
  obtain ⟨P, hP, hbad⟩ := (Option.any_eq_true _ _).1 hbad
  obtain ⟨r, hr, hnone⟩ := (Option.any_eq_true _ _).1 hbad
  exact (h s (reach_of_execAll danglingRun .refl hs)).process 1 P 4 r hP hr (by simpa using hnone)

/-! ## No open file leaks -/

/-- A file that was opened stands on the global table only while some process has a descriptor
for it, and the counter of the table counts its entries. -/
structure NoLeak (s : Kernel) : Prop where
  held : ∀ i r f, s.gft.openFiles i = some r → s.heap r = some f → f.stdFileStatus = -1 →
    ∃ p P j r' f', s.procs p = some P ∧ P.pFiletable.files j = some r' ∧ s.heap r' = some f' ∧
      f'.globalFd = f.globalFd
  size : s.gft.size = used s.gft.openFiles
  empty : (∀ p P j r f, s.procs p = some P → P.pFiletable.files j = some r → s.heap r = some f →
    f.stdFileStatus ≠ -1) → s.gft.size = 3

/-- The action neither duplicates an opened file nor opens one that gets no slot. -/
structure KeepsCounts (s : Kernel) (a : Action) : Prop where
  sole : ClosesSoleDups s a
  opens : ∀ filename flags env, a.call = .openFile filename flags env →
    Opens s a.caller filename flags env → ∃ i, (Ledger.of s).row a.caller i = none
  dups : ∀ oldfd newfd alloc r f, a.call = .dup2 oldfd newfd alloc →
    Duplicates (Ledger.of s) a.caller oldfd newfd r → s.heap r = some f → f.stdFileStatus ≠ -1

theorem Effect.exact {s : Kernel} {a : Action} {L' : Ledger}
    (h : Effect s a (Ledger.of s) L') (hok : KeepsCounts s a) (hwf : (Ledger.of s).WF)
    (he : (Ledger.of s).Exact) : L'.Exact := by
  cases h with
  | idle h =>
      rw [h]
      exact he
  | @abandoned f hf h =>
      rw [h]
      intro r g hon hg
      obtain ⟨j, hj, hrj⟩ := hon
      obtain ⟨-, g', hg', -⟩ := hwf.openReg j r hj hrj
      have hne : r ≠ (Ledger.of s).nextFile := ne_of_lt (hwf.lt_nextFile hg')
      exact he r g ⟨j, hj, hrj⟩ (by simpa [Ledger.alloc, hne] using hg)
  | opened hcall hopens hsp h =>
      exact h.exact hwf (hwf.known _ _ hsp) (hok.opens _ _ _ hcall hopens) he
  | closed _ _ h _ => exact h.keeps (fun M M' hM _ heM hc => hc.exact hM heM) he
  | @duped oldfd newfd alloc r f L₁ hcall hsp hd hcl hgone h =>
      have he₁ : L₁.Exact := hcl.keeps (fun M M' hM _ heM hc => hc.exact hM heM) he
      have hlt : a.caller < L₁.nextProc := by
        rw [hcl.shrinks.nextProc]
        exact hwf.known _ _ hsp
      have hstd : f.stdFileStatus ≠ -1 := by
        obtain ⟨hr, hf⟩ : (∃ i, L₁.row a.caller i = some r) ∧ L₁.heap r = some f := by
          cases h with
          | dup hr hf _ => exact ⟨⟨_, hr⟩, hf⟩
        obtain ⟨f₀, hf₀, hsame⟩ := hcl.shrinks.heap r f hf
        have e : f.stdFileStatus = f₀.stdFileStatus := by rw [hsame]
        rw [e]
        exact hok.dups _ _ _ r f₀ hcall hd hf₀
      exact h.exact hcl.wf_and_sole.1 hlt hstd he₁
  | started h =>
      rw [h]
      exact he.addRow hwf
  | failed h => exact h.exact (he.addRow hwf)
  | forked _ _ _ h _ =>
      exact (h.keeps (fun M M' hM hq heM hs => hs.exact hM hq heM) (he.addRow hwf)).2
  | loaded _ h =>
      rw [h]
      exact he
  | left _ h => exact h.exact he
  | leftLoaded _ _ h => exact h.exact he

theorem boot_exact : (Ledger.of boot).Exact := by
  rintro r f ⟨i, hi, hr⟩ -
  exact absurd (stdSlots_eq_some hr).1 (not_lt.2 hi)

/-- A slot of the ledger is a slot of a process. -/
theorem exists_proc_of_row {s : Kernel} {p : ProcRef} {i : Fin openMax} {r : FileRef}
    (h : (Ledger.of s).row p i = some r) :
    ∃ P, s.procs p = some P ∧ P.pFiletable.files i = some r := by
  cases hP : s.procs p with
  | none => simp [Ledger.of, rowOf, hP] at h
  | some P => exact ⟨P, rfl, by rw [← h]; exact (congrFun (rowOf_some hP) i).symm⟩

theorem noLeak_of_exact {s : Kernel} (hwf : (Ledger.of s).WF) (he : (Ledger.of s).Exact) :
    NoLeak s := by
  have hthree : ∀ i r f, s.gft.openFiles i = some r → s.heap r = some f →
      f.stdFileStatus = -1 → 3 ≤ i.val := by
    intro i r f hr hf hs
    by_contra hc
    have e : r = i.val := Option.some.inj (hr.symm.trans (hwf.openStd i (not_le.1 hc)))
    subst e
    exact (hwf.std_status (not_le.1 hc) hf).stdFileStatus_ne hs
  have hslot : ∀ (i : Fin openMax) r, 3 ≤ i.val → s.gft.openFiles i = some r →
      ∃ f p P j, s.heap r = some f ∧ f.stdFileStatus = -1 ∧ s.procs p = some P ∧
        P.pFiletable.files j = some r := by
    intro i r hi hr
    obtain ⟨-, f, hf, hop⟩ := hwf.openReg i r hi hr
    obtain ⟨p, j, hpj⟩ := Ledger.exists_slot_of_refs_pos (he r f ⟨i, hi, hr⟩ hf).2
    obtain ⟨P, hP, hPj⟩ := exists_proc_of_row hpj
    exact ⟨f, p, P, j, hf, hop.stdFileStatus, hP, hPj⟩
  refine ⟨fun i r f hr hf hs => ?_, hwf.size, fun hnone => ?_⟩
  · obtain ⟨f', p, P, j, hf', -, hP, hPj⟩ := hslot i r (hthree i r f hr hf hs) hr
    have e : f' = f := Option.some.inj (hf'.symm.trans hf)
    subst e
    exact ⟨p, P, j, r, f', hP, hPj, hf, rfl⟩
  · have htable : s.gft.openFiles = stdSlots := by
      funext i
      by_cases hi : i.val < 3
      · have h₁ : s.gft.openFiles i = some i.val := hwf.openStd i hi
        rw [h₁, stdSlots, if_pos hi]
      · rw [stdSlots, if_neg hi]
        cases hr : s.gft.openFiles i with
        | none => rfl
        | some r =>
            obtain ⟨f, p, P, j, hf, hs, hP, hPj⟩ := hslot i r (not_lt.1 hi) hr
            exact absurd hs (hnone p P j r f hP hPj hf)
    have hsize : s.gft.size = used s.gft.openFiles := hwf.size
    rw [hsize, htable, used_stdSlots]
    rfl

/-- In a run that duplicates no opened file and opens files only into tables with room, a file
leaves the global table with its last descriptor. -/
theorem noLeak_of_keepsCounts {s : Kernel} (h : Reach step KeepsCounts boot s) : NoLeak s := by
  have key : (Ledger.of s).WF ∧ (Ledger.of s).Exact := by
    refine h.invariant (I := fun s => (Ledger.of s).WF ∧ (Ledger.of s).Exact)
      (fun t a u ht ha hst => ?_) ⟨boot_wf, boot_exact⟩
    have heff := effect_of_step ht.1 ha.sole hst
    exact ⟨heff.wf ht.1, heff.exact ha ht.1 ht.2⟩
  exact noLeak_of_exact key.1 key.2

/-- `KeepsCounts`, computed. -/
def keepsCounts (s : Kernel) (a : Action) : Bool :=
  closesSoleDups s a &&
    match a.call with
    | .openFile .. => (List.finRange openMax).any fun i => ((Ledger.of s).row a.caller i).isNone
    | .dup2 oldfd _ _ => ((Ledger.of s).lookup a.caller oldfd).all fun r =>
        (s.heap r).all fun f => f.stdFileStatus != -1
    | _ => true

theorem keepsCounts_sound {s : Kernel} {a : Action} (hwf : (Ledger.of s).WF)
    (h : keepsCounts s a = true) : KeepsCounts s a := by
  obtain ⟨p, call⟩ := a
  obtain ⟨hsole, hcall⟩ := Bool.and_eq_true_iff.1 h
  refine ⟨closesSoleDups_sound hwf hsole, ?_, ?_⟩
  · rintro filename flags env rfl -
    obtain ⟨i, -, hi⟩ := List.any_eq_true.1 hcall
    exact ⟨i, by simpa using hi⟩
  · rintro oldfd newfd alloc r f rfl hd hf
    simpa [hd.found, hf] using hcall

/-- A run within the condition: a standard stream is duplicated, and an opened file is inherited
and closed by both processes. -/
def countedRun : List Action :=
  openOne ++ [⟨1, .dup2 1 5 true⟩, ⟨1, .fork forkOk⟩, ⟨2, .close 3⟩, ⟨1, .close 3⟩]

theorem noLeak_countedRun :
    ∃ s, execChecked keepsCounts boot countedRun = some s ∧ NoLeak s := by
  have hrun : (execChecked keepsCounts boot countedRun).isSome = true := by decide +kernel
  obtain ⟨s, hs⟩ := Option.isSome_iff_exists.1 hrun
  refine ⟨s, hs, noLeak_of_keepsCounts ?_⟩
  refine reach_of_execChecked (fun t a ht hc => ?_) countedRun .refl hs
  exact keepsCounts_sound (wf_of_reach (fun _ _ ha => ha.sole) ht) hc

/-- A file is opened and duplicated, and both descriptors are closed. -/
def leakRun : List Action :=
  openOne ++ [⟨1, .dup2 3 5 true⟩, ⟨1, .close 5⟩, ⟨1, .close 3⟩]

local instance neZeroOpenMax : NeZero openMax := ⟨by decide⟩

/-- The fourth entry of the global table is an opened file for which no process created so far
has a descriptor. -/
def leaked (s : Kernel) : Bool :=
  (s.gft.openFiles 3).any fun r => (s.heap r).any fun f => f.stdFileStatus == -1 &&
    (List.range s.nextProc).all fun p => (List.finRange openMax).all fun j =>
      ((Ledger.of s).row p j).all fun r' => (s.heap r').all fun f' => f'.globalFd != f.globalFd

theorem not_noLeak_of_anyStep : ¬ ∀ s, Reach step anyStep boot s → NoLeak s := by
  intro h
  have hrun : (execChecked closesSoleDups boot leakRun).any leaked = true := by decide +kernel
  obtain ⟨s, hs, hbad⟩ := (Option.any_eq_true _ _).1 hrun
  have hreach : Reach step ClosesSoleDups boot s :=
    reach_of_execChecked (fun t a ht hc =>
      closesSoleDups_sound (wf_of_reach (fun _ _ ha => ha) ht) hc) leakRun .refl hs
  have hlive := (wf_of_reach (fun _ _ ha => ha) hreach).live
  obtain ⟨r, hr, hbad⟩ := (Option.any_eq_true _ _).1 hbad
  obtain ⟨f, hf, hbad⟩ := (Option.any_eq_true _ _).1 hbad
  obtain ⟨hstd, hall⟩ := Bool.and_eq_true_iff.1 hbad
  have hno := h s (hreach.mono fun _ _ _ => trivial)
  obtain ⟨p, P, j, r', f', hP, hPj, hf', hg⟩ := hno.held 3 r f hr hf (by simpa using hstd)
  have hrow : (Ledger.of s).row p j = some r' := (congrFun (rowOf_some hP) j).trans hPj
  have h₁ := List.all_eq_true.1 hall p (List.mem_range.2 (hlive p j r' hrow))
  have h₂ := List.all_eq_true.1 h₁ j (List.mem_finRange j)
  simp [hrow, hf', hg] at h₂

/-! ## References on vnodes -/

/-- The action closes files with a vnode only where they are originals with one reference, and
puts a new file with a vnode only into a table with room. -/
structure KeepsVnodes (s : Kernel) (a : Action) : Prop where
  sole : ClosesSoleDups s a
  closes : ∀ fd, ClosesNumber s a fd → (Ledger.of s).SoleOriginals a.caller fd
  opens : ∀ filename flags env, a.call = .openFile filename flags env →
    Opens s a.caller filename flags env → ∃ i, (Ledger.of s).row a.caller i = none
  /-- A slot is empty, or it will be when the new number has been closed. -/
  dups : ∀ oldfd newfd alloc r f, a.call = .dup2 oldfd newfd alloc →
    Duplicates (Ledger.of s) a.caller oldfd newfd r → s.heap r = some f → f.fileVnode ≠ none →
    ∃ i, ∀ r' f', (Ledger.of s).row a.caller i = some r' → s.heap r' = some f' →
      f'.localFd = newfd

theorem Effect.balanced {s : Kernel} {a : Action} {L' : Ledger}
    (h : Effect s a (Ledger.of s) L') (hok : KeepsVnodes s a) (hwf : (Ledger.of s).WF)
    (hb : (Ledger.of s).Balanced) : L'.Balanced := by
  cases h with
  | idle h =>
      rw [h]
      exact hb
  | @abandoned f hf h =>
      rw [h]
      intro v
      rw [Ledger.onVnode_alloc hwf]
      exact hb v
  | opened hcall hopens hsp h =>
      exact h.balanced hwf (hwf.known _ _ hsp) (hok.opens _ _ _ hcall hopens) hb
  | @closed fd hcall hcl h _ =>
      refine h.balanced (hok.closes fd ?_) hb
      rw [ClosesNumber, hcall]
      exact ⟨rfl, hcl⟩
  | @duped oldfd newfd alloc r f L₁ hcall hsp hd hcl hgone h =>
      have hsh := hcl.shrinks
      have hb₁ : L₁.Balanced := by
        refine hcl.balanced (hok.closes newfd ?_) hb
        rw [ClosesNumber, hcall]
        exact ⟨rfl, r, hd⟩
      have hlt : a.caller < L₁.nextProc := by
        rw [hsh.nextProc]
        exact hwf.known _ _ hsp
      have hf : L₁.heap r = some f := by
        cases h with
        | dup _ hf _ => exact hf
      refine h.balanced hcl.wf_and_sole.1 hlt (fun hv => ?_) hb₁
      obtain ⟨f₀, hf₀, hsame⟩ := hsh.heap r f hf
      have hv₀ : f₀.fileVnode ≠ none := by
        rw [← hsame.fileVnode]
        exact hv
      obtain ⟨i, hi⟩ := hok.dups _ _ _ r f₀ hcall hd hf₀ hv₀
      refine ⟨i, ?_⟩
      -- whatever stood in the slot had the number that has been closed
      cases hr : L₁.row a.caller i with
      | none => rfl
      | some r' =>
          obtain ⟨g, hg, -⟩ := hcl.wf_and_sole.1.slots a.caller i r' hr
          obtain ⟨g₀, hg₀, hsame'⟩ := hsh.heap r' g hg
          have := hi r' g₀ (hsh.row a.caller i r' hr) hg₀
          exact absurd (hsame'.localFd.trans this) (hgone i r' g hr hg)
  | started h =>
      rw [h]
      exact hb.addRow hwf
  | failed h => exact h.balanced (hb.addRow hwf)
  | forked _ _ _ h _ =>
      exact (h.keeps (fun M M' hM hq hbM hs => hs.balanced hM hq hbM) (hb.addRow hwf)).2
  | loaded _ h =>
      rw [h]
      exact hb
  | left _ h => exact h.balanced hb
  | leftLoaded _ _ h => exact h.balanced hb

/-- `SoleOriginals`, computed. -/
def soleOriginals (L : Ledger) (p : ProcRef) (fd : Int) : Bool :=
  (List.finRange openMax).all fun i => (L.row p i).all fun r => (L.heap r).all fun f =>
    f.localFd != fd || f.fileVnode.isNone || (!f.isDupe && f.refcount == 1)

end Os161.Main
