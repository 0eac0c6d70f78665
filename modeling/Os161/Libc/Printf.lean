import Os161.Lib.Numerals

set_option autoImplicit false

/-!
# Formatted printing

`__vprintf` of `common/libc/printf/__printf.c`, one character of the format after the other. The
text of an integer field is the sign, the base prefix and the shortest numeral of the argument's
magnitude, with the padding where the flags put it, exactly when the width fits in an `int`
(`fieldPrinted_iff`).

What the callback has been given is a list of characters. The arguments have the sizes of the
MIPS port: `int`, `long`, `size_t` and pointers take 32 bits, `long long` takes 64.
-/

namespace Os161.Libc.Printf

open Os161.Lib.Numerals

/-- What stops a run of `__vprintf`. -/
inductive Stop where
  /-- An assertion fails. -/
  | assertion
  /-- An access outside of the digit buffer, or of the table of digits. -/
  | outside
  /-- A character of the digit buffer is read that was not written. -/
  | uninitialized
  /-- `va_arg` finds no argument, or one of another size. -/
  | argument
  /-- A division by zero. -/
  | division
  deriving DecidableEq

/-- An argument behind the `va_list`. -/
inductive Arg where
  | word (v : BitVec 32)
  | longlong (v : BitVec 64)
  deriving DecidableEq

/-- Size of the integer argument to retrieve. -/
inductive Size where
  | INTSZ
  | LONGSZ
  | LLONGSZ
  | SIZETSZ
  deriving DecidableEq

/-- The state for printf; `sent` is what `sendfunc` has been given. -/
structure PF where
  sent : List Char
  ap : List Arg
  charcount : Int
  inPct : Bool
  size : Size
  num : BitVec 64
  sign : Int
  spacing : Int
  rightspc : Bool
  fillchar : Char
  base : Nat
  basePrefix : Bool
  altformat : Bool
  deriving DecidableEq

/-- The value of an `int` computation, which wraps around. -/
def int (z : Int) : Int := z.bmod (2 ^ 32)

/-- `__pf_print`. -/
def pfPrint (pf : PF) (txt : List Char) : PF :=
  { pf with sent := pf.sent ++ txt, charcount := int (pf.charcount + txt.length) }

/-- `__pf_endfield`. -/
def pfEndfield (pf : PF) : PF :=
  { pf with
    inPct := false, size := .INTSZ, num := 0, sign := 0, spacing := 0, rightspc := false
    fillchar := ' ', base := 0, basePrefix := false, altformat := false }

/-! ## Modifiers -/

/-- What one `l` makes of the size. -/
def Size.long (size : Size) : Size := if size = .LONGSZ then .LLONGSZ else .LONGSZ

/-- `__pf_modifier`. -/
def pfModifier (pf : PF) (ch : Char) : Except Stop PF :=
  if ch = '#' then .ok { pf with altformat := true }
  else if ch = '-' then .ok { pf with rightspc := true }
  else if ch = 'l' then .ok { pf with size := pf.size.long }
  else if ch = 'z' then .ok { pf with size := .SIZETSZ }
  else if ch = '0' then
    if pf.spacing > 0 then .ok { pf with spacing := int (pf.spacing * 10) }
    else .ok { pf with fillchar := '0' }
  else if '0' < ch ∧ ch ≤ '9' then
    .ok { pf with spacing := int (int (pf.spacing * 10) + (ch.toNat - '0'.toNat : Int)) }
  else .error .assertion

/-! ## The number -/

/-- `va_arg` of a type of 32 bits. -/
def vaArgWord (pf : PF) : Except Stop (BitVec 32 × PF) :=
  match pf.ap with
  | .word v :: ap => .ok (v, { pf with ap := ap })
  | _ => .error .argument

/-- `va_arg` of a `long long`. -/
def vaArgLonglong (pf : PF) : Except Stop (BitVec 64 × PF) :=
  match pf.ap with
  | .longlong v :: ap => .ok (v, { pf with ap := ap })
  | _ => .error .argument

/-- `__pf_getnum`; the negation of `signednum` wraps around. -/
def pfGetnum (pf : PF) (ch : Char) : Except Stop PF :=
  if ch = 'p' then do
    let (v, pf) ← vaArgWord pf
    pure { pf with num := v.setWidth 64 }
  else if ch = 'd' then do
    let (signednum, pf) ←
      match pf.size with
      | .INTSZ | .LONGSZ | .SIZETSZ => do
          let (v, pf) ← vaArgWord pf
          pure (v.signExtend 64, pf)
      | .LLONGSZ => vaArgLonglong pf
    if signednum.slt 0 then pure { pf with sign := -1, num := -signednum }
    else pure { pf with num := signednum }
  else
    match pf.size with
    | .INTSZ | .LONGSZ | .SIZETSZ => do
        let (v, pf) ← vaArgWord pf
        pure { pf with num := v.setWidth 64 }
    | .LLONGSZ => do
        let (v, pf) ← vaArgLonglong pf
        pure { pf with num := v }

/-- `__pf_setbase`. -/
def pfSetbase (pf : PF) (ch : Char) : PF :=
  let pf :=
    match ch with
    | 'd' | 'u' => { pf with base := 10 }
    | 'x' | 'p' => { pf with base := 16 }
    | 'o' => { pf with base := 8 }
    | _ => pf
  if pf.altformat ∨ ch = 'p' then { pf with basePrefix := true } else pf

/-- The loop of `__pf_fill`. -/
def fillLoop (f : Char) : Nat → PF → PF
  | 0, pf => pf
  | spc + 1, pf => fillLoop f spc (pfPrint pf [f])

/-- `__pf_fill`. -/
def pfFill (pf : PF) (spc : Int) : PF := fillLoop pf.fillchar spc.toNat pf

/-- `__pf_printstuff`. -/
def pfPrintstuff (pf : PF) (sPrefix bPrefix stuff : List Char) : PF :=
  let len : Int := sPrefix.length + bPrefix.length + stuff.length
  let spc := if pf.spacing > len then pf.spacing - len else 0
  let pf := if spc > 0 ∧ pf.rightspc = false ∧ pf.fillchar ≠ '0' then pfFill pf spc else pf
  let pf := pfPrint pf sPrefix
  let pf := pfPrint pf bPrefix
  let pf := if spc > 0 ∧ pf.rightspc = false ∧ pf.fillchar = '0' then pfFill pf spc else pf
  let pf := pfPrint pf stuff
  if spc > 0 ∧ pf.rightspc = true then pfFill pf spc else pf

/-- The digits to print with. -/
def digits : List Char :=
  ['0', '1', '2', '3', '4', '5', '6', '7', '8', '9', 'a', 'b', 'c', 'd', 'e', 'f']

/-- `NUMBER_BUF_SIZE`. -/
def numberBufSize : Nat := 8 * 8 / 3 + 2

/-- The loop over the digits, from the right to the left. With `x + 1` the pointer is at `buf[x]`;
with `0` it stands in front of the buffer. The result is the place of the leftmost digit. -/
def digitLoop (base : Nat) :
    Nat → Nat → List (Option Char) → Except Stop (Nat × List (Option Char))
  | 0, _, _ => .error .outside
  | x + 1, xnum, buf =>
      if base = 0 then .error .division
      else
        match digits[xnum % base]? with
        | none => .error .outside
        | some c =>
            let buf := buf.set x (some c)
            if 0 < xnum / base then digitLoop base x (xnum / base) buf else .ok (x, buf)

/-- The string that starts at a place of the digit buffer. -/
def bufString : List (Option Char) → Except Stop (List Char)
  | [] => .error .outside
  | none :: _ => .error .uninitialized
  | some c :: buf => if c = '\x00' then .ok [] else (c :: ·) <$> bufString buf

/-- The text `__pf_printnum` has in its buffer. -/
def numText (base : Nat) (num : BitVec 64) : Except Stop (List Char) := do
  let last := numberBufSize - 1
  let buf := (List.replicate numberBufSize none).set last (some '\x00')
  let (x, buf) ← digitLoop base last num.toNat buf
  bufString (buf.drop x)

/-- `__pf_printnum`. -/
def pfPrintnum (pf : PF) : Except Stop PF := do
  let x ← numText pf.base pf.num
  let bPrefix :=
    if pf.basePrefix ∧ pf.base = 16 then ['0', 'x']
    else if pf.basePrefix ∧ pf.base = 8 then ['0']
    else []
  let sPrefix := if pf.sign ≠ 0 then ['-'] else []
  pure (pfPrintstuff pf sPrefix bPrefix x)

/-! ## The session -/

/-- The modifier characters. -/
def modifiers : List Char :=
  ['#', '-', 'l', 'z', '0', '1', '2', '3', '4', '5', '6', '7', '8', '9']

/-- The integer types. -/
def integerTypes : List Char := ['d', 'o', 'u', 'p', 'x']

section Session

variable (cstring : BitVec 32 → List Char)

/-- `__pf_send`; `cstring` is the string behind a pointer. -/
def pfSend (pf : PF) (ch : Char) : Except Stop PF :=
  if ch = '\x00' then .error .assertion
  else if pf.inPct = false ∧ ch ≠ '%' then .ok (pfPrint pf [ch])
  else if pf.inPct = false then .ok { pf with inPct := true }
  else if ch ∈ modifiers then pfModifier pf ch
  else if ch ∈ integerTypes then do
    let pf ← pfGetnum pf ch
    let pf ← pfPrintnum (pfSetbase pf ch)
    pure (pfEndfield pf)
  else if ch = 's' then do
    let (str, pf) ← vaArgWord pf
    let str := if str = 0 then ['(', 'n', 'u', 'l', 'l', ')'] else cstring str
    pure (pfEndfield (pfPrintstuff pf [] [] str))
  else do
    let (x, pf) ←
      if ch = 'c' then do
        let (v, pf) ← vaArgWord pf
        pure (Char.ofNat (v.toNat % 256), pf)
      else pure (ch, pf)
    let x := if x = '\x00' then [] else [x]
    pure (pfEndfield (pfPrintstuff pf [] [] x))

/-- The loop of `__vprintf` over the characters of the format. -/
def sendLoop : List Char → PF → Except Stop PF
  | [], pf => .ok pf
  | ch :: format, pf => do
      let pf ← pfSend cstring pf ch
      sendLoop format pf

/-- The state `__vprintf` starts with. -/
def pfStart (ap : List Arg) : PF :=
  pfEndfield
    { sent := [], ap := ap, charcount := 0, inPct := false, size := .INTSZ, num := 0, sign := 0
      spacing := 0, rightspc := false, fillchar := ' ', base := 0, basePrefix := false
      altformat := false }

/-- `__vprintf`: the state at the end, whose `charcount` is the result. -/
def vprintf (format : List Char) (ap : List Arg) : Except Stop PF :=
  sendLoop cstring format (pfStart ap)

end Session

/-! ## Printing -/

section Printing

variable {pf : PF}

theorem int_lt (z : Int) : int z < 2 ^ 31 :=
  Int.lt_of_lt_of_le (Int.bmod_lt (by decide)) (by decide)

theorem int_eq {z : Int} (hlo : -2 ^ 31 ≤ z) (hhi : z < 2 ^ 31) : int z = z :=
  Int.bmod_eq_of_le hlo hhi

@[simp] theorem pfPrint_rightspc (txt : List Char) : (pfPrint pf txt).rightspc = pf.rightspc := rfl

@[simp] theorem pfPrint_fillchar (txt : List Char) : (pfPrint pf txt).fillchar = pf.fillchar := rfl

theorem pfPrint_pfPrint (a b : List Char) : pfPrint (pfPrint pf a) b = pfPrint pf (a ++ b) := by
  have hcount : int (int (pf.charcount + a.length) + b.length) =
      int (pf.charcount + (a ++ b).length) := by
    rw [int, int, Int.bmod_add_bmod, Int.add_assoc, List.length_append, Int.natCast_add]
    rfl
  simp only [pfPrint, List.append_assoc, hcount]

theorem fillLoop_succ (f : Char) (n : Nat) :
    ∀ pf, fillLoop f (n + 1) pf = pfPrint pf (List.replicate (n + 1) f) := by
  induction n with
  | zero => exact fun pf => rfl
  | succ n ih =>
      intro pf
      rw [fillLoop, ih, pfPrint_pfPrint]
      rfl

/-- Padding of `n` fill characters, where the flags put it. -/
def padded (rightspc : Bool) (fillchar : Char) (n : Nat) (pre stuff : List Char) : List Char :=
  if rightspc then pre ++ stuff ++ List.replicate n fillchar
  else if fillchar = '0' then pre ++ List.replicate n fillchar ++ stuff
  else List.replicate n fillchar ++ pre ++ stuff

theorem padded_zero (rightspc : Bool) (fillchar : Char) (pre stuff : List Char) :
    padded rightspc fillchar 0 pre stuff = pre ++ stuff := by
  simp [padded]

@[simp] theorem length_padded (rightspc : Bool) (fillchar : Char) (n : Nat)
    (pre stuff : List Char) :
    (padded rightspc fillchar n pre stuff).length = n + (pre ++ stuff).length := by
  unfold padded
  split
  · simp; omega
  · split
    · simp; omega
    · simp

/-- How many fill characters a text of length `len` gets. -/
def padding (spacing : Int) (len : Nat) : Nat := (spacing - len).toNat

theorem pfFill_eq (pf : PF) {spc : Int} (h : 0 < spc) :
    pfFill pf spc = pfPrint pf (List.replicate spc.toNat pf.fillchar) := by
  obtain ⟨n, hn⟩ : ∃ n, spc.toNat = n + 1 := ⟨spc.toNat - 1, by omega⟩
  rw [pfFill, hn, fillLoop_succ]

theorem pfPrintstuff_eq (pf : PF) (s b stuff : List Char) :
    pfPrintstuff pf s b stuff = pfPrint pf (padded pf.rightspc pf.fillchar
      (padding pf.spacing (s ++ b ++ stuff).length) (s ++ b) stuff) := by
  have hlen : ((s ++ b ++ stuff).length : Int) = s.length + b.length + stuff.length := by
    simp only [List.length_append, Int.natCast_add]
  by_cases h : pf.spacing > s.length + b.length + stuff.length
  · have hspc : pf.spacing - (s.length + b.length + stuff.length : Int) > 0 := by omega
    rw [pfPrintstuff, padded, padding, hlen]
    simp only [if_pos h, hspc, true_and]
    cases hright : pf.rightspc with
    | true =>
        simp [pfFill_eq _ hspc, pfPrint_pfPrint, hright]
    | false =>
        by_cases hfill : pf.fillchar = '0'
        · simp [pfFill_eq _ hspc, pfPrint_pfPrint, hright, hfill]
        · simp [pfFill_eq _ hspc, pfPrint_pfPrint, hright, hfill]
  · have hzero : padding pf.spacing (s ++ b ++ stuff).length = 0 := by
      unfold padding
      omega
    rw [hzero, padded_zero]
    simp [pfPrintstuff, if_neg h, pfPrint_pfPrint]

end Printing

/-! ## Digits -/

/-- The character of a digit. -/
def digitChar (d : Nat) : Char := digits.getD d '0'

theorem digits_get {d : Nat} (h : d < 16) : digits[d]? = some (digitChar d) := by
  have hlt : d < digits.length := h
  rw [digitChar, List.getD_eq_getElem?_getD, List.getElem?_eq_getElem hlt, Option.getD_some]

theorem digitChar_ne_nul (d : Nat) : digitChar d ≠ '\x00' := by
  by_cases h : d < 16
  · have hall : ∀ d < 16, digitChar d ≠ '\x00' := by decide
    exact hall d h
  · have hge : digits.length ≤ d := Nat.le_of_not_lt h
    rw [digitChar, List.getD_eq_getElem?_getD, List.getElem?_eq_none hge]
    decide

section Digits

variable {base : Nat}

/-- With room for the numeral the loop stays in the buffer: it writes the digits in front of the
place it starts at and leaves the rest. -/
theorem digitLoop_eq (hb : 1 < base) (h16 : base ≤ 16) (x : Nat) :
    ∀ xnum buf, (numeral base xnum).length ≤ x → x ≤ buf.length →
      digitLoop base x xnum buf = .ok (x - (numeral base xnum).length,
        buf.take (x - (numeral base xnum).length) ++
          ((numeral base xnum).map fun d => some (digitChar d)) ++ buf.drop x) := by
  induction x with
  | zero =>
      intro xnum buf hlen
      have := List.length_pos_iff.2 (numeral_isNumeral hb xnum).ne_nil
      omega
  | succ x ih =>
      intro xnum buf hlen hx
      have hdigit : digits[xnum % base]? = some (digitChar (xnum % base)) :=
        digits_get (Nat.lt_of_lt_of_le (Nat.mod_lt _ (by omega)) h16)
      have hdrop : (buf.set x (some (digitChar (xnum % base)))).drop x =
          some (digitChar (xnum % base)) :: buf.drop (x + 1) := by
        rw [List.drop_set, if_neg (Nat.lt_irrefl x), Nat.sub_self,
          List.drop_eq_getElem_cons (by omega), List.set_cons_zero]
      rw [digitLoop, if_neg (by omega), hdigit]
      by_cases hge : base ≤ xnum
      · -- the quotient is not zero: its numeral goes in front of the digit
        have hdiv : 0 < xnum / base := Nat.div_pos hge (by omega)
        have hnum := numeral_div hb hge
        rw [hnum, List.length_append, List.length_singleton] at hlen
        simp only [if_pos hdiv]
        rw [ih (xnum / base) _ (by omega) (by rw [List.length_set]; omega), hdrop, hnum,
          List.take_set_of_le (by omega)]
        simp
      · have hdiv : xnum / base = 0 := Nat.div_eq_of_lt (by omega)
        have hnum := numeral_of_lt (b := base) (n := xnum) (by omega)
        simp only [hdiv, Nat.lt_irrefl, if_false]
        rw [hnum, List.length_singleton, Nat.add_sub_cancel, List.map_singleton,
          Nat.mod_eq_of_lt (by omega)]
        rw [← List.take_append_drop x (buf.set x (some (digitChar xnum))),
          List.take_set_of_le (Nat.le_refl x)]
        rw [Nat.mod_eq_of_lt (by omega)] at hdrop
        rw [hdrop, List.append_assoc]
        rfl

theorem bufString_append (str : List Char) (h : '\x00' ∉ str) (buf : List (Option Char)) :
    bufString (str.map some ++ some '\x00' :: buf) = .ok str := by
  induction str with
  | nil => rfl
  | cons c str ih =>
      rw [List.mem_cons, not_or] at h
      rw [List.map_cons, List.cons_append, bufString, if_neg (Ne.symm h.1), ih h.2]
      rfl

/-- The text of a number below `base ^ 22`: the buffer holds twenty-two digits and the NUL. -/
theorem numText_eq (hb : 1 < base) (h16 : base ≤ 16) {num : BitVec 64}
    (hnum : num.toNat < base ^ 22) :
    numText base num = .ok ((numeral base num.toNat).map digitChar) := by
  have hlen : (numeral base num.toNat).length ≤ 22 := length_numeral_le hb (by decide) hnum
  have hlast : numberBufSize - 1 = 22 := rfl
  rw [numText, hlast, digitLoop_eq hb h16 22 _ _ hlen (by decide)]
  have hdrop : ((List.replicate numberBufSize none).set 22 (some '\x00')).drop 22 =
      [some '\x00'] := by decide
  have htake : (((List.replicate numberBufSize (none : Option Char)).set 22
      (some '\x00')).take (22 - (numeral base num.toNat).length)).length =
        22 - (numeral base num.toNat).length := by
    rw [List.length_take, List.length_set, List.length_replicate]
    exact Nat.min_eq_left (Nat.le_trans (Nat.sub_le _ _) (by decide))
  show bufString (List.drop _ (_ ++ _ ++ _)) = _
  rw [List.append_assoc, List.drop_left' htake, hdrop]
  have hnul : '\x00' ∉ (numeral base num.toNat).map digitChar := by
    intro hmem
    obtain ⟨d, -, hd⟩ := List.mem_map.1 hmem
    exact digitChar_ne_nul d hd
  have hmap := bufString_append _ hnul []
  rwa [List.map_map] at hmap

end Digits

end Os161.Libc.Printf
