import Mathlib.Data.List.Basic
import Mathlib.Tactic.Common

set_option autoImplicit false

/-!
# Tiles in a row

A list of tiles, each of some length, laid side by side from an address on. `At len a bs x b` says
that the tile `b` starts at `x`, and `Laid len P a prev bs` that every tile satisfies `P`, which
may speak about where it starts and how long its predecessor is. Tiles do not overlap
(`At.apart`), and what is said about a row can be taken apart where the row is (`laid_append`,
`at_append`).
-/

namespace Os161.Lib.Tiles

variable {β : Type} (len : β → Nat)

/-- The length of a row. -/
def total : List β → Nat
  | [] => 0
  | b :: bs => len b + total bs

/-- The length of the last tile of a row, `prev` for an empty one. -/
def lastLen (prev : Nat) : List β → Nat
  | [] => prev
  | b :: bs => lastLen (len b) bs

/-- In the row `bs` from `a` on, the tile `b` starts at `x`. -/
def At (a : Nat) : List β → Nat → β → Prop
  | [], _, _ => False
  | c :: bs, x, b => (x = a ∧ b = c) ∨ At (a + len c) bs x b

/-- Every tile of the row satisfies `P`, which sees its address and the length of the tile before
it. -/
def Laid (P : Nat → Nat → β → Prop) : Nat → Nat → List β → Prop
  | _, _, [] => True
  | a, prev, b :: bs => P a prev b ∧ Laid P (a + len b) (len b) bs

variable {len} {a x y prev : Nat} {b c : β} {l r bs : List β} {P P' : Nat → Nat → β → Prop}

@[simp] theorem total_nil : total len [] = 0 := rfl

@[simp] theorem total_cons : total len (b :: bs) = len b + total len bs := rfl

@[simp] theorem total_append (l r : List β) : total len (l ++ r) = total len l + total len r := by
  induction l with
  | nil => simp
  | cons b l ih => simp [ih, Nat.add_assoc]

@[simp] theorem lastLen_nil : lastLen len prev [] = prev := rfl

@[simp] theorem lastLen_append_cons (l : List β) :
    lastLen len prev (l ++ b :: r) = lastLen len (len b) r := by
  induction l generalizing prev with
  | nil => rfl
  | cons c l ih => exact ih

/-! ## Where the tiles are -/

theorem at_append : ∀ {l : List β} {a : Nat},
    At len a (l ++ r) x b ↔ At len a l x b ∨ At len (a + total len l) r x b
  | [], a => by simp [At]
  | c :: l, a => by
      rw [List.cons_append, At, At, at_append, total_cons, Nat.add_assoc, or_assoc]

theorem At.bounds : ∀ {bs : List β} {a : Nat}, At len a bs x b →
    a ≤ x ∧ x + len b ≤ a + total len bs
  | [], _, h => h.elim
  | c :: bs, a, h => by
      rw [total_cons]
      rcases h with ⟨rfl, rfl⟩ | h
      · omega
      · have := h.bounds
        omega

/-- Two tiles are the same, or they do not overlap. -/
theorem At.apart : ∀ {bs : List β} {a : Nat}, At len a bs x b → At len a bs y c →
    (x = y ∧ b = c) ∨ x + len b ≤ y ∨ y + len c ≤ x
  | [], _, h, _ => h.elim
  | d :: bs, a, h, h' => by
      rcases h with ⟨rfl, rfl⟩ | h <;> rcases h' with ⟨rfl, rfl⟩ | h'
      · exact .inl ⟨rfl, rfl⟩
      · have := h'.bounds
        omega
      · have := h.bounds
        omega
      · exact h.apart h'

/-- A tile has a row before it and a row behind it. -/
theorem At.split : ∀ {bs : List β} {a : Nat}, At len a bs x b →
    ∃ l r, bs = l ++ b :: r ∧ x = a + total len l
  | [], _, h => h.elim
  | c :: bs, a, h => by
      rcases h with ⟨rfl, rfl⟩ | h
      · exact ⟨[], bs, rfl, rfl⟩
      · obtain ⟨l, r, rfl, rfl⟩ := h.split
        exact ⟨c :: l, r, rfl, by rw [total_cons, Nat.add_assoc]⟩

/-! ## What the tiles satisfy -/

theorem laid_append : ∀ {l : List β} {a prev : Nat}, Laid len P a prev (l ++ r) ↔
    Laid len P a prev l ∧ Laid len P (a + total len l) (lastLen len prev l) r
  | [], a, prev => by simp [Laid]
  | c :: l, a, prev => by
      rw [List.cons_append, Laid, Laid, laid_append, total_cons, Nat.add_assoc, and_assoc]
      rfl

/-- What is said about the tiles may change outside the row. -/
theorem Laid.congr (h : Laid len P a prev bs)
    (hP : ∀ x q b, At len a bs x b → P x q b → P' x q b) : Laid len P' a prev bs := by
  induction bs generalizing a prev with
  | nil => trivial
  | cons c bs ih =>
      exact ⟨hP a prev c (.inl ⟨rfl, rfl⟩) h.1, ih h.2 fun x q b hx => hP x q b (.inr hx)⟩

end Os161.Lib.Tiles
