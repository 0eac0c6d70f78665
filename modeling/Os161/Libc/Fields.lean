import Os161.Libc.Printf

set_option autoImplicit false

/-!
# Integer fields

What `__vprintf` prints for a `%` field of an integer type, with any modifiers. The fields do not
see each other: between two of them the state is the one of the start (`vprintf_initial`). The
width is collected in an `int`, so a width from `2 ^ 31` on is lost.
-/

namespace Os161.Libc.Printf

open Os161.Lib.Numerals

/-! ## What a field asks for -/

/-- The digits among the modifiers. -/
def widthDigits (ms : List Char) : List Nat :=
  (ms.filter Char.isDigit).map fun c => c.toNat - '0'.toNat

/-- The width that is written in the modifiers. -/
def widthOf (ms : List Char) : Nat := value 10 (widthDigits ms)

/-- The fill character: a leading zero asks for zeros. -/
def fillOf (ms : List Char) : Char := if (widthDigits ms).head? = some 0 then '0' else ' '

/-- What one modifier makes of the size. -/
def sizeAfter (size : Size) (ch : Char) : Size :=
  if ch = 'l' then size.long else if ch = 'z' then .SIZETSZ else size

/-- The size that the modifiers select. -/
def sizeFor (ms : List Char) : Size := ms.foldl sizeAfter .INTSZ

/-- The argument has the type that the field reads. -/
def Arg.Fits (ch : Char) (size : Size) : Arg → Prop
  | .word _ => ch = 'p' ∨ size ≠ .LLONGSZ
  | .longlong _ => ch ≠ 'p' ∧ size = .LLONGSZ

/-- The number that an argument stands for: signed for `d`, unsigned otherwise. -/
def Arg.value (ch : Char) : Arg → Int
  | .word v => if ch = 'd' then v.toInt else v.toNat
  | .longlong v => if ch = 'd' then v.toInt else v.toNat

/-- The base of an integer type. -/
def baseOf (ch : Char) : Nat := if ch = 'o' then 8 else if ch = 'x' ∨ ch = 'p' then 16 else 10

/-- The sign in front of a number. -/
def signOf (v : Int) : List Char := if v < 0 then ['-'] else []

/-- The base prefix, which `#` asks for and a pointer always has. -/
def basePrefixOf (ch : Char) (ms : List Char) : List Char :=
  if ch = 'p' ∨ ch = 'x' ∧ '#' ∈ ms then ['0', 'x']
  else if ch = 'o' ∧ '#' ∈ ms then ['0']
  else []

/-- `text` is the sign, the base prefix and the shortest digits for `v`, padded to the width. -/
structure IsFieldText (ms : List Char) (ch : Char) (v : Int) (ds : List Nat)
    (text : List Char) : Prop where
  shortest : IsShortest (baseOf ch) ds v.natAbs
  padded_eq : text = padded (decide ('-' ∈ ms)) (fillOf ms)
    (widthOf ms - (signOf v ++ basePrefixOf ch ms ++ ds.map digitChar).length)
    (signOf v ++ basePrefixOf ch ms) (ds.map digitChar)
  length_eq : text.length =
    max (widthOf ms) (signOf v ++ basePrefixOf ch ms ++ ds.map digitChar).length

/-- The field behind `format` runs to its end, without an access outside of the digit buffer. It
takes the argument, prints its number and leaves everything else of the state as it is at the start
of a field. -/
def FieldPrinted (cstring : BitVec 32 → List Char) (format : List Char) (ap : List Arg)
    (ms : List Char) (ch : Char) (pf : PF) (arg : Arg) (rest : List Arg) : Prop :=
  ∃ ds text pf', IsFieldText ms ch (arg.value ch) ds text ∧
    vprintf cstring (format ++ '%' :: (ms ++ [ch])) ap = .ok pf' ∧
    pf' = pfPrint { pf with ap := rest } text ∧ pfEndfield pf' = pf'

/-! ## Runs -/

section Runs

variable {cstring : BitVec 32 → List Char} {pf pf' : PF} {ch : Char} {ms : List Char}

/-- A computation with a result goes through its parts. -/
theorem bind_eq_ok {α β : Type} {x : Except Stop α} {f : α → Except Stop β} {b : β} :
    (x >>= f) = .ok b ↔ ∃ a, x = .ok a ∧ f a = .ok b := by
  constructor
  · intro h
    cases x with
    | error p => cases h
    | ok a => exact ⟨a, rfl, h⟩
  · rintro ⟨a, rfl, h⟩
    exact h

theorem sendLoop_append (format format' : List Char) :
    ∀ pf, sendLoop cstring (format ++ format') pf =
      (sendLoop cstring format pf).bind (sendLoop cstring format') := by
  induction format with
  | nil => exact fun pf => rfl
  | cons c format ih =>
      intro pf
      rw [List.cons_append, sendLoop, sendLoop]
      cases pfSend cstring pf c with
      | error p => rfl
      | ok pf1 => exact ih pf1

/-- Outside of a field the settings are those of the start. -/
def Initial (pf : PF) : Prop := pf.inPct = false → pfEndfield pf = pf

theorem Initial.endfield (pf : PF) : Initial (pfEndfield pf) := fun _ => rfl

theorem pfEndfield_pfPrint (txt : List Char) :
    pfEndfield (pfPrint pf txt) = pfPrint (pfEndfield pf) txt := rfl

/-- A modifier stays inside of the field. -/
theorem inPct_pfModifier (h : pfModifier pf ch = .ok pf') : pf'.inPct = pf.inPct := by
  unfold pfModifier at h
  split_ifs at h <;> cases h <;> rfl

theorem Initial.send (hinit : Initial pf) (h : pfSend cstring pf ch = .ok pf') : Initial pf' := by
  unfold pfSend at h
  split_ifs at h with h0 hplain hstart hmod hint hs
  · -- outside of a field
    obtain rfl := Except.ok.inj h
    intro _
    rw [pfEndfield_pfPrint, hinit hplain.1]
  · obtain rfl := Except.ok.inj h
    intro hout
    cases hout
  · intro hout
    rw [inPct_pfModifier h] at hout
    exact absurd hout hstart
  -- every type ends the field
  · obtain ⟨pf1, -, h⟩ := bind_eq_ok.1 h
    obtain ⟨pf2, -, h⟩ := bind_eq_ok.1 h
    obtain rfl := Except.ok.inj h
    exact Initial.endfield pf2
  · obtain ⟨r, -, h⟩ := bind_eq_ok.1 h
    obtain rfl := Except.ok.inj h
    exact Initial.endfield _
  · obtain ⟨r, -, h⟩ := bind_eq_ok.1 h
    obtain rfl := Except.ok.inj h
    exact Initial.endfield _
  · obtain rfl := Except.ok.inj h
    exact Initial.endfield _

theorem Initial.sendLoop (format : List Char) :
    ∀ pf, Initial pf → sendLoop cstring format pf = .ok pf' → Initial pf' := by
  induction format with
  | nil =>
      intro pf hinit h
      obtain rfl := Except.ok.inj h
      exact hinit
  | cons c format ih =>
      intro pf hinit h
      rw [Printf.sendLoop] at h
      obtain ⟨pf1, hsend, h⟩ := bind_eq_ok.1 h
      exact ih pf1 (hinit.send hsend) h

/-- Whenever a run of `__vprintf` is outside of a field, the settings are those of the start. -/
theorem vprintf_initial {format : List Char} {ap : List Arg}
    (h : vprintf cstring format ap = .ok pf) : Initial pf :=
  Initial.sendLoop format _ (Initial.endfield _) h

end Runs

/-! ## Modifiers -/

section Modifiers

variable {cstring : BitVec 32 → List Char} {pf pf' : PF} {ch : Char} {ms : List Char}

/-- What the modifiers leave alone. -/
def PF.others (pf : PF) : List Char × List Arg × Int × Bool × BitVec 64 × Int × Nat × Bool :=
  (pf.sent, pf.ap, pf.charcount, pf.inPct, pf.num, pf.sign, pf.base, pf.basePrefix)

/-- `pf'` is `pf` behind the modifiers `ms`. The width is right as long as it fits. -/
structure Modified (ms : List Char) (pf pf' : PF) : Prop where
  others : pf'.others = pf.others
  size : pf'.size = ms.foldl sizeAfter pf.size
  rightspc : pf'.rightspc = (pf.rightspc || decide ('-' ∈ ms))
  altformat : pf'.altformat = (pf.altformat || decide ('#' ∈ ms))
  spacing_lt : pf.spacing < 2 ^ 31 → pf'.spacing < 2 ^ 31
  spacing : ∀ n : Nat, pf.spacing = n →
    (widthDigits ms).foldl (fun n d => 10 * n + d) n < 2 ^ 31 →
      pf'.spacing = ((widthDigits ms).foldl (fun n d => 10 * n + d) n : Nat) ∧
      pf'.fillchar = if n = 0 ∧ (widthDigits ms).head? = some 0 then '0' else pf.fillchar

theorem widthDigits_cons_of_isDigit (h : ch.isDigit = true) (ms : List Char) :
    widthDigits (ch :: ms) = (ch.toNat - '0'.toNat) :: widthDigits ms := by
  rw [widthDigits, List.filter_cons_of_pos h, List.map_cons]
  rfl

theorem widthDigits_cons_of_not (h : ch.isDigit = false) (ms : List Char) :
    widthDigits (ch :: ms) = widthDigits ms := by
  rw [widthDigits, List.filter_cons_of_neg (by rw [h]; exact Bool.false_ne_true)]
  rfl

theorem Modified.nil (pf : PF) : Modified [] pf pf where
  others := rfl
  size := rfl
  rightspc := (Bool.or_false _).symm
  altformat := (Bool.or_false _).symm
  spacing_lt := id
  spacing := fun _ hn _ => ⟨hn, (if_neg fun h => nomatch h.2).symm⟩

theorem Modified.cons {pf1 : PF} (h1 : Modified [ch] pf pf1) (h : Modified ms pf1 pf') :
    Modified (ch :: ms) pf pf' where
  others := h.others.trans h1.others
  size := by rw [h.size, h1.size]; rfl
  rightspc := by
    rw [h.rightspc, h1.rightspc, Bool.or_assoc, ← Bool.decide_or]
    simp
  altformat := by
    rw [h.altformat, h1.altformat, Bool.or_assoc, ← Bool.decide_or]
    simp
  spacing_lt := fun hlt => h.spacing_lt (h1.spacing_lt hlt)
  spacing := by
    intro n hn hlt
    cases hdigit : ch.isDigit with
    | false =>
        rw [widthDigits_cons_of_not hdigit] at hlt ⊢
        have hone : widthDigits [ch] = [] := widthDigits_cons_of_not hdigit []
        obtain ⟨hs1, hf1⟩ := h1.spacing n hn (by
          rw [hone]
          exact Nat.lt_of_le_of_lt (le_foldl (by decide) _ n) hlt)
        rw [hone] at hs1 hf1
        obtain ⟨hs, hf⟩ := h.spacing n hs1 hlt
        have hf1' : pf1.fillchar = pf.fillchar := hf1.trans (if_neg fun h => nomatch h.2)
        exact ⟨hs, by rw [hf, hf1']⟩
    | true =>
        rw [widthDigits_cons_of_isDigit hdigit, List.foldl_cons] at hlt ⊢
        have hone : widthDigits [ch] = [ch.toNat - '0'.toNat] :=
          widthDigits_cons_of_isDigit hdigit []
        generalize ch.toNat - '0'.toNat = d at hlt hone ⊢
        obtain ⟨hs1, hf1⟩ := h1.spacing n hn (by
          rw [hone]
          exact Nat.lt_of_le_of_lt (le_foldl (by decide) _ (10 * n + d)) hlt)
        rw [hone] at hs1 hf1
        obtain ⟨hs, hf⟩ := h.spacing (10 * n + d) hs1 hlt
        refine ⟨hs, ?_⟩
        rw [hf, hf1]
        -- a zero in front of the width has set the fill character already
        by_cases hzero : n = 0 ∧ d = 0
        · obtain ⟨rfl, rfl⟩ := hzero
          simp
        · have h1 : ¬ (10 * n + d = 0 ∧ (widthDigits ms).head? = some 0) := by omega
          have h2 : ¬ (n = 0 ∧ [d].head? = some 0) := by simpa using hzero
          have h3 : ¬ (n = 0 ∧ (d :: widthDigits ms).head? = some 0) := by simpa using hzero
          rw [if_neg h1, if_neg h2, if_neg h3]

theorem modifier_cases (h : ch ∈ modifiers) :
    ch = '#' ∨ ch = '-' ∨ ch = 'l' ∨ ch = 'z' ∨ ch = '0' ∨ '0' < ch ∧ ch ≤ '9' := by
  simp only [modifiers, List.mem_cons, List.not_mem_nil, or_false] at h
  rcases h with rfl | rfl | rfl | rfl | rfl | rfl | rfl | rfl | rfl | rfl | rfl | rfl | rfl |
    rfl <;> decide

/-- A modifier that is not a digit leaves the width and the fill character. -/
theorem Modified.of_not_digit (h : ch.isDigit = false) (hothers : pf'.others = pf.others)
    (hsize : pf'.size = sizeAfter pf.size ch)
    (hright : pf'.rightspc = (pf.rightspc || decide ('-' ∈ [ch])))
    (halt : pf'.altformat = (pf.altformat || decide ('#' ∈ [ch])))
    (hspacing : pf'.spacing = pf.spacing) (hfill : pf'.fillchar = pf.fillchar) :
    Modified [ch] pf pf' where
  others := hothers
  size := hsize
  rightspc := hright
  altformat := halt
  spacing_lt := fun hlt => by rwa [hspacing]
  spacing := by
    intro n hn _
    have hnil : widthDigits [ch] = [] := widthDigits_cons_of_not h []
    rw [hnil]
    exact ⟨hspacing.trans hn, hfill.trans (if_neg fun h => nomatch h.2).symm⟩

/-- A digit changes the width or the fill character, and no more. -/
theorem Modified.of_digit (h : ch.isDigit = true) (hothers : pf'.others = pf.others)
    (hsize : pf'.size = pf.size) (hright : pf'.rightspc = pf.rightspc)
    (halt : pf'.altformat = pf.altformat)
    (hlt : pf.spacing < 2 ^ 31 → pf'.spacing < 2 ^ 31)
    (hspacing : ∀ n : Nat, pf.spacing = n → 10 * n + (ch.toNat - '0'.toNat) < 2 ^ 31 →
      pf'.spacing = (10 * n + (ch.toNat - '0'.toNat) : Nat) ∧
      pf'.fillchar = if n = 0 ∧ ch.toNat - '0'.toNat = 0 then '0' else pf.fillchar) :
    Modified [ch] pf pf' where
  others := hothers
  size := by
    rw [hsize, List.foldl_cons, List.foldl_nil, sizeAfter, if_neg, if_neg]
    · rintro rfl
      exact absurd h (by decide)
    · rintro rfl
      exact absurd h (by decide)
  rightspc := by
    have hne : '-' ∉ [ch] := fun hmem => by
      rw [List.mem_singleton] at hmem
      rw [← hmem] at h
      exact absurd h (by decide)
    rw [hright, decide_eq_false hne, Bool.or_false]
  altformat := by
    have hne : '#' ∉ [ch] := fun hmem => by
      rw [List.mem_singleton] at hmem
      rw [← hmem] at h
      exact absurd h (by decide)
    rw [halt, decide_eq_false hne, Bool.or_false]
  spacing_lt := hlt
  spacing := by
    intro n hn hwidth
    have hone : widthDigits [ch] = [ch.toNat - '0'.toNat] := widthDigits_cons_of_isDigit h []
    rw [hone] at hwidth ⊢
    obtain ⟨hs, hf⟩ := hspacing n hn hwidth
    exact ⟨hs, by rw [hf]; simp⟩

/-- One modifier. -/
theorem pfModifier_modified (h : ch ∈ modifiers) (pf : PF) :
    ∃ pf', pfModifier pf ch = .ok pf' ∧ Modified [ch] pf pf' := by
  rcases modifier_cases h with rfl | rfl | rfl | rfl | rfl | ⟨hlo, hhi⟩
  · exact ⟨_, rfl, .of_not_digit (by decide) rfl rfl (by simp) (by simp) rfl rfl⟩
  · exact ⟨_, rfl, .of_not_digit (by decide) rfl rfl (by simp) (by simp) rfl rfl⟩
  · exact ⟨_, rfl, .of_not_digit (by decide) rfl rfl (by simp) (by simp) rfl rfl⟩
  · exact ⟨_, rfl, .of_not_digit (by decide) rfl rfl (by simp) (by simp) rfl rfl⟩
  · -- a zero belongs to the width behind another digit
    by_cases hpos : pf.spacing > 0
    · refine ⟨{ pf with spacing := int (pf.spacing * 10) }, if_pos hpos, ?_⟩
      refine .of_digit (by decide) rfl rfl rfl rfl (fun _ => int_lt _) fun n hn hlt => ?_
      have hzero : '0'.toNat - '0'.toNat = 0 := rfl
      rw [hzero] at hlt ⊢
      refine ⟨?_, (if_neg (by omega)).symm⟩
      show int (pf.spacing * 10) = _
      rw [int_eq (by omega) (by omega)]
      omega
    · refine ⟨{ pf with fillchar := '0' }, if_neg hpos, ?_⟩
      refine .of_digit (by decide) rfl rfl rfl rfl id fun n hn _ => ?_
      have hzero : n = 0 := by omega
      subst hzero
      exact ⟨hn, (if_pos ⟨rfl, rfl⟩).symm⟩
  · have hdigit : ch.isDigit = true := by
      simp only [Char.isDigit, Bool.and_eq_true, decide_eq_true_eq]
      exact ⟨Nat.le_of_lt hlo, hhi⟩
    have hlo' : '0'.toNat < ch.toNat := hlo
    have hmodifier : pfModifier pf ch = .ok
        { pf with spacing := int (int (pf.spacing * 10) + (ch.toNat - '0'.toNat : Int)) } := by
      have hhi' : ch.toNat ≤ '9'.toNat := hhi
      have hne : ∀ c : Char, c.toNat ≤ '0'.toNat → ch ≠ c := by
        rintro c hc rfl
        omega
      have habove : ∀ c : Char, '9'.toNat < c.toNat → ch ≠ c := by
        rintro c hc rfl
        omega
      rw [pfModifier, if_neg (hne '#' (by decide)), if_neg (hne '-' (by decide)),
        if_neg (habove 'l' (by decide)), if_neg (habove 'z' (by decide)),
        if_neg (hne '0' (by decide)), if_pos ⟨hlo, hhi⟩]
    refine ⟨_, hmodifier, .of_digit hdigit rfl rfl rfl rfl (fun _ => int_lt _) fun n hn hlt => ?_⟩
    refine ⟨?_, (if_neg (by omega)).symm⟩
    show int (int (pf.spacing * 10) + (ch.toNat - '0'.toNat : Int)) = _
    have htimes : int (pf.spacing * 10) = pf.spacing * 10 := int_eq (by omega) (by omega)
    rw [htimes, int_eq (by omega) (by omega)]
    omega

/-- A whole run of modifiers, inside of a field. -/
theorem sendLoop_modified (cstring : BitVec 32 → List Char) (ms : List Char)
    (hms : ∀ c ∈ ms, c ∈ modifiers) :
    ∀ pf, pf.inPct = true →
      ∃ pf', sendLoop cstring ms pf = .ok pf' ∧ Modified ms pf pf' := by
  induction ms with
  | nil => exact fun pf _ => ⟨pf, rfl, Modified.nil pf⟩
  | cons c ms ih =>
      intro pf hin
      have hc : c ∈ modifiers := hms c List.mem_cons_self
      obtain ⟨pf1, hmod, hone⟩ := pfModifier_modified hc pf
      have hin1 : pf1.inPct = true := (inPct_pfModifier hmod).trans hin
      obtain ⟨pf', hrun, hrest⟩ := ih (fun d hd => hms d (List.mem_cons_of_mem c hd)) pf1 hin1
      have hsend : pfSend cstring pf c = .ok pf1 := by
        have hnul : c ≠ '\x00' := by
          rintro rfl
          exact absurd hc (by decide)
        rw [pfSend, if_neg hnul, if_neg (by simp [hin]), if_neg (by simp [hin]), if_pos hc, hmod]
      refine ⟨pf', ?_, hone.cons hrest⟩
      rw [sendLoop, hsend]
      exact hrun

end Modifiers

/-! ## The number -/

section Number

variable {cstring : BitVec 32 → List Char} {pf : PF} {ch : Char} {arg : Arg} {rest : List Arg}

/-- The negation that wraps around gives the magnitude, for the most negative value too. -/
theorem toNat_magnitude (v : BitVec 64) :
    (if v.slt 0 then -v else v).toNat = v.toInt.natAbs := by
  have hslt : v.slt 0 = decide (v.toInt < 0) := by
    rw [BitVec.slt]
    rfl
  rw [hslt]
  have hlt := v.isLt
  by_cases hneg : v.toInt < 0
  · rw [if_pos (decide_eq_true hneg), BitVec.toNat_neg]
    rw [BitVec.toInt_eq_toNat_cond] at hneg ⊢
    split at hneg <;> omega
  · rw [if_neg (by simpa using hneg)]
    rw [BitVec.toInt_eq_toNat_cond] at hneg ⊢
    split at hneg <;> omega

/-- What `__pf_getnum` makes of a signed number. -/
theorem getnum_signed (v : BitVec 64) (pf : PF) (hsign : pf.sign = 0) :
    (if v.slt 0 then { pf with sign := -1, num := -v } else { pf with num := v } : PF) =
      { pf with
        num := if v.slt 0 then -v else v
        sign := if v.toInt < 0 then -1 else 0 } := by
  have hslt : v.slt 0 = decide (v.toInt < 0) := by
    rw [BitVec.slt]
    rfl
  rw [hslt]
  by_cases hneg : v.toInt < 0
  · simp only [hneg, decide_true, if_true]
  · simp only [hneg, decide_false, Bool.false_eq_true, if_false]
    rw [← hsign]

/-- `__pf_getnum` takes an argument of the right type and stores its sign and its magnitude. -/
theorem pfGetnum_eq (hap : pf.ap = arg :: rest) (hfits : arg.Fits ch pf.size)
    (hsign : pf.sign = 0) :
    ∃ n : BitVec 64, n.toNat = (arg.value ch).natAbs ∧ pfGetnum pf ch = .ok
      { pf with ap := rest, num := n, sign := if arg.value ch < 0 then -1 else 0 } := by
  have hpos : ∀ n : Nat, (if (n : Int) < 0 then (-1 : Int) else 0) = pf.sign := fun n => by
    rw [if_neg (by omega), hsign]
  cases arg with
  | word v =>
      have hword : vaArgWord pf = .ok (v, { pf with ap := rest }) := by rw [vaArgWord, hap]
      have hunsigned : (v.setWidth 64).toNat = v.toNat := by
        rw [BitVec.toNat_setWidth]
        exact Nat.mod_eq_of_lt (Nat.lt_trans v.isLt (by decide))
      by_cases hp : ch = 'p'
      · subst hp
        refine ⟨v.setWidth 64, hunsigned, ?_⟩
        have hvalue : (Arg.word v).value 'p' = v.toNat := by
          rw [Arg.value, if_neg (by decide)]
        rw [pfGetnum, if_pos rfl, hword, hvalue, hpos]
        rfl
      · have hsize : pf.size ≠ .LLONGSZ := hfits.resolve_left hp
        by_cases hd : ch = 'd'
        · subst hd
          have hext : (v.signExtend 64).toInt = v.toInt :=
            BitVec.toInt_signExtend_of_le (by decide)
          refine ⟨if (v.signExtend 64).slt 0 then -v.signExtend 64 else v.signExtend 64, ?_, ?_⟩
          · rw [toNat_magnitude, hext]
            rfl
          · have hget := getnum_signed (v.signExtend 64) { pf with ap := rest } hsign
            rw [hext] at hget
            rw [Arg.value, if_pos rfl, ← hget, pfGetnum, if_neg hp, if_pos rfl]
            cases hs : pf.size with
            | LLONGSZ => exact absurd hs hsize
            | INTSZ | LONGSZ | SIZETSZ =>
                simp only [hword]
                rw [apply_ite Except.ok, hs]
                rfl
        · refine ⟨v.setWidth 64, ?_, ?_⟩
          · rw [hunsigned, Arg.value, if_neg hd]
            rfl
          · rw [pfGetnum, if_neg hp, if_neg hd, Arg.value, if_neg hd, hpos]
            cases hs : pf.size with
            | LLONGSZ => exact absurd hs hsize
            | INTSZ | LONGSZ | SIZETSZ =>
                simp only [hword]
                rw [hs]
                rfl
  | longlong v =>
      obtain ⟨hp, hsize⟩ := hfits
      have hlong : vaArgLonglong pf = .ok (v, { pf with ap := rest }) := by
        rw [vaArgLonglong, hap]
      by_cases hd : ch = 'd'
      · subst hd
        refine ⟨if v.slt 0 then -v else v, toNat_magnitude v, ?_⟩
        have hget := getnum_signed v { pf with ap := rest } hsign
        rw [Arg.value, if_pos rfl, ← hget, pfGetnum, if_neg hp, if_pos rfl]
        simp only [hsize, hlong]
        rw [apply_ite Except.ok]
        rfl
      · refine ⟨v, ?_, ?_⟩
        · rw [Arg.value, if_neg hd]
          rfl
        · rw [pfGetnum, if_neg hp, if_neg hd, Arg.value, if_neg hd, hpos]
          simp only [hsize, hlong]
          rfl

theorem pfSetbase_eq (h : ch ∈ integerTypes) (pf : PF) : pfSetbase pf ch =
    { pf with
      base := baseOf ch
      basePrefix := pf.basePrefix || pf.altformat || decide (ch = 'p') } := by
  simp only [integerTypes, List.mem_cons, List.not_mem_nil, or_false] at h
  rcases h with rfl | rfl | rfl | rfl | rfl <;> cases halt : pf.altformat <;>
    simp [pfSetbase, baseOf, halt]

theorem baseOf_cases (ch : Char) : baseOf ch = 8 ∨ baseOf ch = 10 ∨ baseOf ch = 16 := by
  unfold baseOf
  split
  · exact .inl rfl
  · split
    · exact .inr (.inr rfl)
    · exact .inr (.inl rfl)

/-- Twenty-two digits are enough for every base. -/
theorem lt_baseOf_pow (ch : Char) (n : BitVec 64) : n.toNat < baseOf ch ^ 22 := by
  apply Nat.lt_of_lt_of_le n.isLt
  rcases baseOf_cases ch with h | h | h <;> rw [h] <;> decide

theorem one_lt_baseOf (ch : Char) : 1 < baseOf ch := by
  rcases baseOf_cases ch with h | h | h <;> omega

theorem baseOf_le (ch : Char) : baseOf ch ≤ 16 := by
  rcases baseOf_cases ch with h | h | h <;> omega

/-- The prefixes that `__pf_printnum` selects. -/
theorem bPrefix_eq (hch : ch ∈ integerTypes) (ms : List Char)
    (h : pf.basePrefix = (decide ('#' ∈ ms) || decide (ch = 'p'))) (hbase : pf.base = baseOf ch) :
    (if pf.basePrefix ∧ pf.base = 16 then ['0', 'x']
      else if pf.basePrefix ∧ pf.base = 8 then ['0'] else []) = basePrefixOf ch ms := by
  rw [h, hbase]
  simp only [integerTypes, List.mem_cons, List.not_mem_nil, or_false] at hch
  rcases hch with rfl | rfl | rfl | rfl | rfl <;> by_cases hmem : '#' ∈ ms <;>
    simp [hmem, baseOf, basePrefixOf]

theorem pfPrintnum_eq (hch : ch ∈ integerTypes) (ms : List Char) {v : Int}
    (hnum : pf.num.toNat = v.natAbs) (hsign : pf.sign = if v < 0 then -1 else 0)
    (hbase : pf.base = baseOf ch)
    (hbpre : pf.basePrefix = (decide ('#' ∈ ms) || decide (ch = 'p'))) :
    pfPrintnum pf = .ok (pfPrint pf (padded pf.rightspc pf.fillchar
      (padding pf.spacing (signOf v ++ basePrefixOf ch ms ++
        (numeral (baseOf ch) v.natAbs).map digitChar).length)
      (signOf v ++ basePrefixOf ch ms) ((numeral (baseOf ch) v.natAbs).map digitChar))) := by
  have htext : numText pf.base pf.num = .ok ((numeral (baseOf ch) v.natAbs).map digitChar) := by
    rw [hbase, numText_eq (one_lt_baseOf ch) (baseOf_le ch) (lt_baseOf_pow ch _), hnum]
  have hs : (if pf.sign ≠ 0 then ['-'] else []) = signOf v := by
    rw [hsign, signOf]
    by_cases hneg : v < 0 <;> simp [hneg]
  rw [pfPrintnum, htext, ← pfPrintstuff_eq, ← hs, ← bPrefix_eq hch ms hbpre hbase]
  rfl

end Number

/-! ## The field -/

section Field

variable {cstring : BitVec 32 → List Char} {format : List Char} {ap : List Arg} {pf : PF}
variable {ms : List Char} {ch : Char} {arg : Arg} {rest : List Arg}

/-- The end of a field forgets everything but the output and the arguments. -/
theorem pfEndfield_eq {pf' : PF} (rest : List Arg) (hinit : pfEndfield pf = pf)
    (hsent : pf'.sent = pf.sent) (hap : pf'.ap = rest) (hcount : pf'.charcount = pf.charcount) :
    pfEndfield pf' = { pf with ap := rest } := by
  rw [← hinit, pfEndfield, hsent, hap, hcount]
  rfl

/-- The text of a field, with what the modifiers have made of the width and the fill character. -/
def fieldText (ms : List Char) (ch : Char) (v : Int) (spacing : Int) (fillchar : Char) :
    List Char :=
  let digits := (numeral (baseOf ch) v.natAbs).map digitChar
  padded (decide ('-' ∈ ms)) fillchar
    (padding spacing (signOf v ++ basePrefixOf ch ms ++ digits).length)
    (signOf v ++ basePrefixOf ch ms) digits

/-- Every field of an integer type runs to its end, and the state is initial again. -/
theorem field_run (cstring : BitVec 32 → List Char) (hout : pf.inPct = false)
    (hinit : pfEndfield pf = pf) (hms : ∀ c ∈ ms, c ∈ modifiers) (hch : ch ∈ integerTypes)
    (hap : pf.ap = arg :: rest) (hfits : arg.Fits ch (sizeFor ms)) :
    ∃ pf1, Modified ms { pf with inPct := true } pf1 ∧
      sendLoop cstring ('%' :: (ms ++ [ch])) pf = .ok (pfPrint { pf with ap := rest }
        (fieldText ms ch (arg.value ch) pf1.spacing pf1.fillchar)) := by
  obtain ⟨pf1, hrun, hmod⟩ := sendLoop_modified cstring ms hms { pf with inPct := true } rfl
  refine ⟨pf1, hmod, ?_⟩
  have hothers := hmod.others
  simp only [PF.others, Prod.mk.injEq] at hothers
  obtain ⟨hsent, hap1, hcount, hin, -, hsign, -, hbpre⟩ := hothers
  -- the settings are those of the start of a field
  have hstart : pf.size = .INTSZ ∧ pf.sign = 0 ∧ pf.rightspc = false ∧ pf.basePrefix = false ∧
      pf.altformat = false := by
    rw [← hinit]
    exact ⟨rfl, rfl, rfl, rfl, rfl⟩
  obtain ⟨hsize0, hsign0, hright0, hbpre0, halt0⟩ := hstart
  have hright : pf1.rightspc = decide ('-' ∈ ms) := by
    rw [hmod.rightspc]
    show (pf.rightspc || _) = _
    rw [hright0, Bool.false_or]
  have halt : pf1.altformat = decide ('#' ∈ ms) := by
    rw [hmod.altformat]
    show (pf.altformat || _) = _
    rw [halt0, Bool.false_or]
  have hsize : pf1.size = sizeFor ms := by
    rw [hmod.size]
    show ms.foldl sizeAfter pf.size = _
    rw [hsize0]
    rfl
  obtain ⟨n, hn, hget⟩ := pfGetnum_eq (hap1.trans hap) (hsize ▸ hfits) (hsign.trans hsign0)
  have hsend : pfSend cstring pf1 ch = .ok (pfPrint { pf with ap := rest }
      (fieldText ms ch (arg.value ch) pf1.spacing pf1.fillchar)) := by
    have hnul : ch ≠ '\x00' := by
      rintro rfl
      exact absurd hch (by decide)
    have hmodifier : ch ∉ modifiers := by
      simp only [integerTypes, List.mem_cons, List.not_mem_nil, or_false] at hch
      rcases hch with rfl | rfl | rfl | rfl | rfl <;> decide
    rw [pfSend, if_neg hnul, if_neg (by simp [hin]), if_neg (by simp [hin]), if_neg hmodifier,
      if_pos hch, hget]
    show (pfPrintnum _).bind _ = _
    rw [pfSetbase_eq hch, pfPrintnum_eq hch ms hn rfl rfl]
    · show Except.ok (pfEndfield (pfPrint _ _)) = _
      rw [pfEndfield_pfPrint, pfEndfield_eq rest hinit, fieldText]
      · simp only [hright]
      · exact hsent
      · rfl
      · exact hcount
    · show (pf1.basePrefix || pf1.altformat || _) = _
      rw [hbpre, hbpre0, halt, Bool.false_or]
  rw [sendLoop]
  have hpct : pfSend cstring pf '%' = .ok { pf with inPct := true } := by
    rw [pfSend, if_neg (by decide), if_neg (by simp), if_pos hout]
  rw [hpct]
  show sendLoop cstring (ms ++ [ch]) { pf with inPct := true } = _
  rw [sendLoop_append, hrun]
  show sendLoop cstring [ch] pf1 = _
  rw [sendLoop, hsend]
  rfl

theorem length_fieldText (ms : List Char) (ch : Char) (v spacing : Int) (fillchar : Char) :
    (fieldText ms ch v spacing fillchar).length =
      padding spacing (signOf v ++ basePrefixOf ch ms ++
        (numeral (baseOf ch) v.natAbs).map digitChar).length +
      (signOf v ++ basePrefixOf ch ms ++ (numeral (baseOf ch) v.natAbs).map digitChar).length :=
  length_padded _ _ _ _ _

theorem Arg.natAbs_value_lt (ch : Char) (arg : Arg) : (arg.value ch).natAbs < 2 ^ 64 := by
  cases arg with
  | word v =>
      have hlt := v.isLt
      rw [Arg.value, BitVec.toInt_eq_toNat_cond]
      split_ifs <;> omega
  | longlong v =>
      have hlt := v.isLt
      rw [Arg.value, BitVec.toInt_eq_toNat_cond]
      split_ifs <;> omega

/-- Without the padding a field has twenty-five characters at most. -/
theorem length_number_le (ms : List Char) (ch : Char) (arg : Arg) :
    (signOf (arg.value ch) ++ basePrefixOf ch ms ++
      (numeral (baseOf ch) (arg.value ch).natAbs).map digitChar).length ≤ 25 := by
  have hdigits : (numeral (baseOf ch) (arg.value ch).natAbs).length ≤ 22 :=
    length_numeral_le (one_lt_baseOf ch) (by decide)
      (lt_baseOf_pow ch (.ofNatLT _ (arg.natAbs_value_lt ch)))
  have hsign : (signOf (arg.value ch)).length ≤ 1 := by
    unfold signOf
    split <;> decide
  have hbpre : (basePrefixOf ch ms).length ≤ 2 := by
    unfold basePrefixOf
    split_ifs <;> decide
  rw [List.length_append, List.length_append, List.length_map]
  omega

/-- Wherever a field of an integer type starts in a format, it prints its argument as it should,
and leaves the state as a field finds it, exactly when the width is below `2 ^ 31`. -/
theorem fieldPrinted_iff (hrun : vprintf cstring format ap = .ok pf) (hout : pf.inPct = false)
    (hms : ∀ c ∈ ms, c ∈ modifiers) (hch : ch ∈ integerTypes) (hap : pf.ap = arg :: rest)
    (hfits : arg.Fits ch (sizeFor ms)) :
    FieldPrinted cstring format ap ms ch pf arg rest ↔ widthOf ms < 2 ^ 31 := by
  have hinit : pfEndfield pf = pf := vprintf_initial hrun hout
  have hspacing0 : pf.spacing = 0 := by
    rw [← hinit]
    rfl
  have hfill0 : pf.fillchar = ' ' := by
    rw [← hinit]
    rfl
  obtain ⟨pf1, hmod, hfield⟩ := field_run cstring hout hinit hms hch hap hfits
  have hvprintf : vprintf cstring (format ++ '%' :: (ms ++ [ch])) ap = .ok (pfPrint
      { pf with ap := rest } (fieldText ms ch (arg.value ch) pf1.spacing pf1.fillchar)) := by
    rw [vprintf, sendLoop_append]
    rw [vprintf] at hrun
    rw [hrun]
    exact hfield
  have hlen := length_number_le ms ch arg
  constructor
  · rintro ⟨ds, text, pf', htext, hrun', rfl, -⟩
    have hsame : text = fieldText ms ch (arg.value ch) pf1.spacing pf1.fillchar :=
      List.append_cancel_left (congrArg PF.sent (Except.ok.inj (hrun'.symm.trans hvprintf)))
    -- the width in the state is an `int`, so the text is too short for a greater one
    have hspacing : pf1.spacing < 2 ^ 31 := hmod.spacing_lt (by rw [hspacing0]; decide)
    have hlength := htext.length_eq
    rw [hsame, length_fieldText, padding] at hlength
    omega
  · intro hlt
    obtain ⟨hspacing, hfill⟩ := hmod.spacing 0 hspacing0 hlt
    have hfill' : pf1.fillchar = fillOf ms := by
      rw [hfill, fillOf]
      simp [hfill0]
    have hspacing' : pf1.spacing = widthOf ms := hspacing
    have hpadding : ∀ len, padding pf1.spacing len = widthOf ms - len := by
      intro len
      rw [padding, hspacing']
      omega
    refine ⟨_, _, _, ⟨numeral_isShortest (one_lt_baseOf ch) _, ?_, ?_⟩, hvprintf, rfl, ?_⟩
    · rw [fieldText, hpadding, hfill']
    · rw [length_fieldText, hpadding]
      omega
    · have hend : pfEndfield { pf with ap := rest } = { pf with ap := rest } := by
        conv_rhs => rw [← hinit]
        rfl
      rw [pfEndfield_pfPrint, hend]

/-- `%-5d` of `-7` behind some text. -/
theorem fieldPrinted_iff_seven :
    FieldPrinted (fun _ => []) ['a'] [.word (-7)] ['-', '5'] 'd'
      (pfPrint (pfStart [.word (-7)]) ['a']) (.word (-7)) [] ↔ widthOf ['-', '5'] < 2 ^ 31 :=
  fieldPrinted_iff rfl rfl (by simp [modifiers]) (by decide) rfl (.inr (by decide))

/-- `%4294967297d` of `7` prints one character: the width wraps around to `1`. -/
theorem not_fieldPrinted :
    ¬ FieldPrinted (fun _ => []) [] [.word 7] ['4', '2', '9', '4', '9', '6', '7', '2', '9', '7']
      'd' (pfStart [.word 7]) (.word 7) [] := by
  rintro ⟨ds, text, pf', htext, hrun, rfl, -⟩
  have hsent : (vprintf (fun _ => []) ('%' :: (['4', '2', '9', '4', '9', '6', '7', '2', '9', '7']
      ++ ['d'])) [.word 7]).toOption.map PF.sent = some ['7'] := by decide +kernel
  have hwidth : widthOf ['4', '2', '9', '4', '9', '6', '7', '2', '9', '7'] = 4294967297 := by
    decide +kernel
  rw [List.nil_append] at hrun
  rw [hrun] at hsent
  have htext7 : text = ['7'] := Option.some.inj hsent
  have hlength := htext.length_eq
  rw [htext7, hwidth, List.length_singleton] at hlength
  omega

end Field

end Os161.Libc.Printf
