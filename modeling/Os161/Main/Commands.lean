import Os161.Libc.Strtok

set_option autoImplicit false

/-!
# Menu lines

`cmd_dispatch` and `menu_execute` of `kern/main/menu.c`. Both cut the same memory into words, the
outer one at semicolons and the inner one at blanks, each with a context of its own. The functions
of the command table are arbitrary, except that a command writes into the strings of its own
arguments only. `menuExecute_ran` says which parts of a line are dispatched and which words each
dispatch sees.
-/

namespace Os161.Main.Commands

open Os161.Lib.Words
open Os161.Path (Str)
open Os161.Path.InPlace (nul StringAt cstring)
open Os161.Libc.Strtok

/-- `MAXMENUARGS`. -/
def maxMenuArgs : Nat := 16

/-- `EINVAL`. -/
def EINVAL : Int := 8

/-- `E2BIG`. -/
def E2BIG : Int := 14

section Model

variable {σ : Type}

/-- An entry of the command table. The function gets the arguments, the memory and the rest of the
kernel; with `none` it does not return. -/
structure Command (σ : Type) where
  name : Str
  func : List Nat → List Char → σ → Option (Int × List Char × σ)

/-- One call of `cmd_dispatch`: what it was given and the memory it found, the pointers to the
words with the memory behind the loop (`none` when there are too many), and its result. -/
structure Dispatch where
  cmd : Nat
  found : List Char
  words : Option (List Nat × List Char)
  result : Option Int

/-- The memory of the line and the rest of the kernel; `log` records the calls of
`cmd_dispatch`. -/
structure Machine (σ : Type) where
  buf : List Char
  world : σ
  log : List Dispatch

variable (cmdtable : List (Command σ))

/-- The command of a name; entries without a name are section headers. -/
def findCommand (name : Str) : Option (Command σ) :=
  cmdtable.find? fun c => decide (c.name ≠ [] ∧ name = c.name)

/-- `cmd_dispatch`, once the words are there: its result and the machine behind it. -/
def runCommand (args : List Nat) (buf : List Char) (world : σ) :
    Access (Option Int × List Char × σ) :=
  match args with
  | [] => .ok (some 0, buf, world)
  | arg :: _ => do
      let name ← cstring arg buf
      match findCommand cmdtable name with
      | none => .ok (some EINVAL, buf, world)
      | some c =>
          match c.func args buf world with
          | none => .ok (none, buf, world)
          | some (result, buf, world) => .ok (some result, buf, world)

/-- `cmd_dispatch`. -/
def cmdDispatch (cmd : Nat) (s : Machine σ) : Access (Option Int × Machine σ) := do
  let (words, buf) ← strtokWords [' ', '\t'] maxMenuArgs cmd s.buf
  match words with
  | none =>
      .ok (some E2BIG, ⟨buf, s.world, s.log ++ [⟨cmd, s.buf, none, some E2BIG⟩]⟩)
  | some args => do
      let (result, buf', world) ← runCommand cmdtable args buf s.world
      .ok (result, ⟨buf', world, s.log ++ [⟨cmd, s.buf, some (args, buf), result⟩]⟩)

/-- How far `menu_execute` has come: through the line, to the panic over a failed kernel argument,
into a command that does not return, or through the rounds that were looked at. -/
inductive Progress where
  | finished
  | panicked
  | gone
  | running
  deriving DecidableEq

/-- The loop of `menu_execute`, for so many rounds. -/
def menuLoop (isargs : Bool) : Nat → Option Nat → Option Nat → Machine σ →
    Access (Progress × Machine σ)
  | _, none, _, s => .ok (.finished, s)
  | 0, some _, _, s => .ok (.running, s)
  | rounds + 1, some command, context, s => do
      let (result, s) ← cmdDispatch cmdtable command s
      match result with
      | none => .ok (.gone, s)
      | some result =>
          if result ≠ 0 ∧ isargs then .ok (.panicked, s)
          else do
            let (command, context, buf) ← strtokR [';'] none context s.buf
            menuLoop isargs rounds command context { s with buf := buf }

/-- `menu_execute`. -/
def menuExecute (isargs : Bool) (rounds line : Nat) (s : Machine σ) :
    Access (Progress × Machine σ) := do
  let (command, context, buf) ← strtokR [';'] (some line) none s.buf
  menuLoop cmdtable isargs rounds command context { s with buf := buf }

end Model

/-! ## What is seen -/

/-- The non-empty parts of a line. -/
def parts (line : Str) : List Str := (wordsFrom (isSep [';']) true 0 line).map Prod.snd

/-- The words of a part. -/
def argv (part : Str) : List Str := (wordsFrom (isSep [' ', '\t']) true 0 part).map Prod.snd

/-- The call was made for `part`, and saw its words, or reported that they are too many. -/
structure Dispatch.Sees (d : Dispatch) (part : Str) : Prop where
  given : StringAt d.found d.cmd part
  seen : ∀ args buf, d.words = some (args, buf) →
    List.Forall₂ (StringAt buf) args (argv part) ∧ (argv part).length ≤ maxMenuArgs
  refused : d.words = none → maxMenuArgs < (argv part).length ∧ d.result = some E2BIG

/-- The calls of `cmd_dispatch` for the parts of a line, in order: all of them, unless a command
does not return, or a kernel argument fails and the kernel panics. -/
inductive Ran (isargs : Bool) : List Str → List Dispatch → Progress → Prop
  | finished : Ran isargs [] [] .finished
  | next {part ps d ds e} (hsees : d.Sees part) (r : Int) (hresult : d.result = some r)
      (hgoes : r = 0 ∨ isargs = false) (hrest : Ran isargs ps ds e) :
      Ran isargs (part :: ps) (d :: ds) e
  | panicked {part ps d} (hsees : d.Sees part) (r : Int) (hresult : d.result = some r)
      (hfails : r ≠ 0) (hargs : isargs = true) : Ran isargs (part :: ps) [d] .panicked
  | gone {part ps d} (hsees : d.Sees part) (hresult : d.result = none) :
      Ran isargs (part :: ps) [d] .gone

/-- A command writes into the strings of its arguments only. -/
def WritesArguments {σ : Type} (cmdtable : List (Command σ)) : Prop :=
  ∀ c ∈ cmdtable, ∀ args buf world r buf' world', c.func args buf world = some (r, buf', world') →
    ∀ strs, List.Forall₂ (StringAt buf) args strs →
      ∀ i, (∀ a ∈ args.zip strs, i < a.1 ∨ a.1 + a.2.length ≤ i) → buf'[i]? = buf[i]?

/-! ## One dispatch -/

section Dispatches

variable {σ : Type} {cmdtable : List (Command σ)} {buf : List Char} {args : List Nat}
variable {cmd : Nat} {part : Str} {s : Machine σ}

/-- The command that is found writes into the strings of the arguments only. -/
theorem runCommand_ok (hwrites : WritesArguments cmdtable) {strs : List Str}
    (hargs : List.Forall₂ (StringAt buf) args strs) (world : σ) :
    ∃ r buf' world', runCommand cmdtable args buf world = .ok (r, buf', world') ∧
      ∀ i, (∀ a ∈ args.zip strs, i < a.1 ∨ a.1 + a.2.length ≤ i) → buf'[i]? = buf[i]? := by
  cases hargs with
  | nil => exact ⟨_, _, _, rfl, fun _ _ => rfl⟩
  | @cons arg name args strs harg hrest =>
      have hname : cstring arg buf = .ok name := harg.cstring_eq
      cases hfind : findCommand cmdtable name with
      | none =>
          refine ⟨some EINVAL, buf, world, ?_, fun _ _ => rfl⟩
          simp only [runCommand, hname, bind, Except.bind, hfind]
      | some c =>
          have hmem : c ∈ cmdtable := List.mem_of_find?_eq_some hfind
          cases hfunc : c.func (arg :: args) buf world with
          | none =>
              refine ⟨none, buf, world, ?_, fun _ _ => rfl⟩
              simp only [runCommand, hname, bind, Except.bind, hfind, hfunc]
          | some r =>
              obtain ⟨r, buf', world'⟩ := r
              refine ⟨some r, buf', world', ?_,
                hwrites c hmem _ _ _ _ _ _ hfunc _ (List.Forall₂.cons harg hrest)⟩
              simp only [runCommand, hname, bind, Except.bind, hfind, hfunc]

/-- A call of `cmd_dispatch` sees the words of its part, and leaves the memory outside of the part
as it was. -/
theorem cmdDispatch_sees (hwrites : WritesArguments cmdtable) (h : StringAt s.buf cmd part) :
    ∃ r t d, cmdDispatch cmdtable cmd s = .ok (r, t) ∧ t.log = s.log ++ [d] ∧ d.Sees part ∧
      d.result = r ∧ ∀ i, i < cmd ∨ cmd + part.length ≤ i → t.buf[i]? = s.buf[i]? := by
  obtain ⟨buf, hrun, hwritten, hstrings⟩ := strtokWords_eq [' ', '\t'] h maxMenuArgs
  have hargv : argv part = (wordsFrom (isSep [' ', '\t']) true cmd part).map Prod.snd :=
    map_snd_wordsFrom part true 0 cmd
  have hplace : ∀ a ∈ wordsFrom (isSep [' ', '\t']) true cmd part,
      cmd ≤ a.1 ∧ a.1 + a.2.length ≤ cmd + part.length := by
    rintro ⟨j, w⟩ ha
    obtain ⟨k, rfl, hw, -⟩ := (mem_wordsFrom_iff part true cmd).1 ha
    have hle := hw.le_length
    exact ⟨Nat.le_add_right cmd k, show cmd + k + w.length ≤ _ by omega⟩
  generalize wordsFrom (isSep [' ', '\t']) true cmd part = ws at hrun hstrings hargv hplace
  by_cases hle : ws.length ≤ maxMenuArgs
  · rw [if_pos hle] at hrun
    have hargs : List.Forall₂ (StringAt buf) (ws.map Prod.fst) (argv part) := by
      rw [hargv, List.forall₂_map_left_iff, List.forall₂_map_right_iff, List.forall₂_same]
      exact hstrings hle
    obtain ⟨r, buf', world', hcommand, hframe⟩ := runCommand_ok hwrites hargs s.world
    refine ⟨r, ⟨buf', world', s.log ++ [⟨cmd, s.buf, some (ws.map Prod.fst, buf), r⟩]⟩, _, ?_,
      rfl, ⟨h, ?_, ?_⟩, rfl, ?_⟩
    · rw [cmdDispatch, hrun]
      show (runCommand cmdtable (ws.map Prod.fst) buf s.world >>= _) = _
      rw [hcommand]
      rfl
    · intro args buf'' heq
      obtain ⟨rfl, rfl⟩ := Prod.mk.inj (Option.some.inj heq)
      refine ⟨hargs, ?_⟩
      rwa [hargv, List.length_map]
    · intro heq
      cases heq
    · intro i hi
      refine (hframe i fun a ha => ?_).trans (hwritten.outside i hi)
      -- the arguments are inside of the part
      rw [hargv, List.zip_map', List.mem_map] at ha
      obtain ⟨b, hb, rfl⟩ := ha
      have hin := hplace b hb
      show i < b.1 ∨ b.1 + b.2.length ≤ i
      omega
  · rw [if_neg hle] at hrun
    refine ⟨some E2BIG, ⟨buf, s.world, s.log ++ [⟨cmd, s.buf, none, some E2BIG⟩]⟩, _, ?_, rfl,
      ⟨h, ?_, ?_⟩, rfl, hwritten.outside⟩
    · rw [cmdDispatch, hrun]
      rfl
    · intro args buf'' heq
      cases heq
    · intro _
      refine ⟨?_, rfl⟩
      rw [hargv, List.length_map]
      exact Nat.lt_of_not_le hle

end Dispatches

/-! ## The line -/

section Line

variable {σ : Type} {cmdtable : List (Command σ)} {isargs : Bool}

theorem parts_eq (line : Str) (head : Nat) :
    parts line = (wordsFrom (isSep [';']) true head line).map Prod.snd :=
  map_snd_wordsFrom line true 0 head

theorem menuLoop_none (rounds : Nat) (context : Option Nat) (s : Machine σ) :
    menuLoop cmdtable isargs rounds none context s = .ok (.finished, s) := by
  cases rounds <;> rfl

/-- A round whose command returns goes on with the next part. -/
theorem menuLoop_next {rounds cmd : Nat} {context : Option Nat} {s t : Machine σ} {r : Int}
    (hrun : cmdDispatch cmdtable cmd s = .ok (some r, t)) (hgoes : r = 0 ∨ isargs = false) :
    menuLoop cmdtable isargs (rounds + 1) (some cmd) context s =
      (strtokR [';'] none context t.buf).bind fun p =>
        menuLoop cmdtable isargs rounds p.1 p.2.1 { t with buf := p.2.2 } := by
  have hnot : ¬ (r ≠ 0 ∧ isargs = true) := by
    rcases hgoes with h | h <;> simp [h]
  simp only [menuLoop, hrun, bind, Except.bind, if_neg hnot]

/-- The outer loop behind the dispatch of one part: `ran` is what the rest of the line does. -/
theorem menuLoop_dispatch {rounds cmd : Nat} {context : Option Nat} {s : Machine σ} {part : Str}
    {ps : List Str} (hwrites : WritesArguments cmdtable) (h : StringAt s.buf cmd part)
    (ran : ∀ t : Machine σ, (∀ i, i < cmd ∨ cmd + part.length ≤ i → t.buf[i]? = s.buf[i]?) →
      ∃ e u ds, ((strtokR [';'] none context t.buf).bind fun p =>
          menuLoop cmdtable isargs rounds p.1 p.2.1 { t with buf := p.2.2 }) = .ok (e, u) ∧
        u.log = t.log ++ ds ∧ Ran isargs ps ds e) :
    ∃ e t ds, menuLoop cmdtable isargs (rounds + 1) (some cmd) context s = .ok (e, t) ∧
      t.log = s.log ++ ds ∧ Ran isargs (part :: ps) ds e := by
  obtain ⟨r, t, d, hrun, hlog, hsees, hresult, hframe⟩ := cmdDispatch_sees hwrites h
  cases r with
  | none =>
      refine ⟨.gone, t, [d], ?_, hlog, .gone hsees hresult⟩
      simp only [menuLoop, hrun, bind, Except.bind]
  | some r =>
      by_cases hpanic : r ≠ 0 ∧ isargs = true
      · refine ⟨.panicked, t, [d], ?_, hlog, .panicked hsees r hresult hpanic.1 hpanic.2⟩
        simp only [menuLoop, hrun, bind, Except.bind, if_pos hpanic]
      · have hgoes : r = 0 ∨ isargs = false := by
          rw [not_and_or, not_not, Bool.not_eq_true] at hpanic
          exact hpanic
        obtain ⟨e, u, ds, hrest, hlog', hran⟩ := ran t hframe
        refine ⟨e, u, d :: ds, ?_, ?_, .next hsees r hresult hgoes hran⟩
        · rw [menuLoop_next hrun hgoes]
          exact hrest
        · rw [hlog', hlog, List.append_assoc, List.singleton_append]

/-- The outer loop from a call of `strtok_r` on. The dispatches leave the rest of the line alone,
so the context still points to it. -/
theorem menuLoop_ran (hwrites : WritesArguments cmdtable) (rounds : Nat) :
    ∀ str head (s : Machine σ), StringAt s.buf head str → (parts str).length ≤ rounds →
      ∃ e t ds, ((strtokR [';'] none (some head) s.buf).bind fun p =>
          menuLoop cmdtable isargs rounds p.1 p.2.1 { s with buf := p.2.2 }) = .ok (e, t) ∧
        t.log = s.log ++ ds ∧ Ran isargs (parts str) ds e := by
  induction rounds with
  | zero =>
      intro str head s h hrounds
      cases scan (isSep [';']) str with
      | seps _ hg =>
          have hnil : parts str = [] := List.length_eq_zero_iff.1 (Nat.le_zero.1 hrounds)
          rw [strtokR_seps h hg, hnil]
          exact ⟨.finished, s, [], rfl, (List.append_nil _).symm, .finished⟩
      | last g w hg hne hw =>
          rw [parts_eq _ head, wordsFrom_seps g hg, wordsFrom_last hne hw] at hrounds
          exact absurd hrounds (Nat.not_succ_le_zero 0)
      | word g w c l hg hne hw hc =>
          rw [parts_eq _ head, wordsFrom_seps g hg, wordsFrom_word hne hw hc, List.map_cons,
            List.length_cons] at hrounds
          exact absurd hrounds (Nat.not_succ_le_zero _)
  | succ rounds ih =>
      intro str head s h hrounds
      cases scan (isSep [';']) str with
      | seps _ hg =>
          have hnil : parts str = [] := by
            have hseps := wordsFrom_seps (l := []) str hg 0
            rw [List.append_nil] at hseps
            rw [parts, hseps]
            rfl
          rw [strtokR_seps h hg, hnil]
          exact ⟨.finished, s, [], rfl, (List.append_nil _).symm, .finished⟩
      | last g w hg hne hw =>
          have hone : parts (g ++ w) = [w] := by
            rw [parts, wordsFrom_seps g hg, wordsFrom_last hne hw]
            rfl
          rw [strtokR_last h hg hne hw, hone]
          refine menuLoop_dispatch hwrites h.suffix fun t _ => ?_
          refine ⟨.finished, t, [], ?_, (List.append_nil _).symm, .finished⟩
          exact menuLoop_none rounds none t
      | word g w c l hg hne hw hc =>
          have h' : StringAt s.buf (head + g.length) (w ++ c :: l) := h.suffix
          have hwords : parts (g ++ (w ++ c :: l)) = w :: parts l := by
            rw [parts_eq _ head, wordsFrom_seps g hg, wordsFrom_word hne hw hc, List.map_cons,
              ← parts_eq]
          rw [hwords, List.length_cons] at hrounds
          rw [strtokR_word h hg hne hw hc, hwords]
          refine menuLoop_dispatch hwrites h'.cut_left fun t hframe => ?_
          refine ih l _ t ?_ (Nat.le_of_succ_le_succ hrounds)
          exact StringAt_congr h'.cut_right fun i hi _ => hframe i (.inr (Nat.le_of_succ_le hi))

/-- With as many rounds as the line has characters `menu_execute` comes to an end, and it has
dispatched the parts of the line. -/
theorem menuExecute_ran (hwrites : WritesArguments cmdtable) {rounds line : Nat} {str : Str}
    {s : Machine σ} (h : StringAt s.buf line str) (hrounds : str.length ≤ rounds) :
    ∃ e t ds, menuExecute cmdtable isargs rounds line s = .ok (e, t) ∧
      t.log = s.log ++ ds ∧ Ran isargs (parts str) ds e := by
  have hparts : (parts str).length ≤ rounds := by
    rw [parts, List.length_map]
    exact Nat.le_trans (length_wordsFrom_le str true 0) hrounds
  exact menuLoop_ran hwrites rounds str line s h hparts

/-- Tokenising gives the words of a string, whatever the separators; the parts of a menu line are
dispatched in order, until one does not return or the kernel panics over a kernel argument, and
each dispatch sees the words of its part. -/
theorem line_tokenised {seps buf : List Char} {path room : Nat} {str : Str}
    (hstr : StringAt buf path str) (hroom : str.length ≤ room)
    (hwrites : WritesArguments cmdtable) {rounds line : Nat} {cmds : Str} {s : Machine σ}
    (hline : StringAt s.buf line cmds) (hrounds : cmds.length ≤ rounds) :
    (∃ ptrs buf', strtokWords seps room path buf = .ok (some ptrs, buf') ∧
      Tokenised seps path str buf ptrs buf') ∧
    ∃ e t ds, menuExecute cmdtable isargs rounds line s = .ok (e, t) ∧
      t.log = s.log ++ ds ∧ Ran isargs (parts cmds) ds e :=
  ⟨strtokWords_tokenised hstr hroom, menuExecute_ran hwrites hline hrounds⟩

/-- `a b` at spaces, and the line `?;?` with a help command. -/
theorem line_tokenised_help :
    (∃ ptrs buf', strtokWords [' '] 3 0 ['a', ' ', 'b', nul] = .ok (some ptrs, buf') ∧
      Tokenised [' '] 0 ['a', ' ', 'b'] ['a', ' ', 'b', nul] ptrs buf') ∧
    ∃ e t ds, menuExecute [⟨['?'], fun _ buf world => some (0, buf, world)⟩] false 3 0
        (⟨['?', ';', '?', nul], (), []⟩ : Machine Unit) = .ok (e, t) ∧
      t.log = [] ++ ds ∧ Ran false (parts ['?', ';', '?']) ds e := by
  refine line_tokenised ⟨by decide, [], rfl⟩ (by decide) ?_ ⟨by decide, [], rfl⟩ (by decide)
  intro c hc args buf world r buf' world' hfunc strs _ i _
  rw [List.mem_singleton.1 hc] at hfunc
  obtain ⟨-, rfl, -⟩ := Prod.mk.inj (Option.some.inj hfunc) |>.imp_right Prod.mk.inj
  rfl

/-- The kernel arguments `x;y` without such commands: the kernel panics over `x`, and `y` is not
dispatched. -/
theorem not_all_dispatched : ∃ t : Machine Unit,
    menuExecute [] true 3 0 ⟨['x', ';', 'y', nul], (), []⟩ = .ok (.panicked, t) ∧
      ¬ List.Forall₂ Dispatch.Sees t.log (parts ['x', ';', 'y']) :=
  ⟨_, rfl, fun h => absurd h.length_eq (by decide)⟩

end Line

end Os161.Main.Commands
