import Mathlib.Logic.Function.Basic
import Mathlib.Logic.Relation
import Mathlib.Tactic.Common

set_option autoImplicit false

/-!
# Chains of links

Nodes with at most one link each, as a partial function. `Ends` says that every chain of links comes
to an end; then there are no cycles. Taking a link away keeps this, and a new link keeps it unless
its target already leads back to it, and then it closes a cycle (`acyclic_link_iff`).
-/

namespace Os161.Lib.Chains

variable {ν : Type} {next : ν → Option ν} {x y : ν}

/-- `x` has a link to `y`. -/
def Link (next : ν → Option ν) (x y : ν) : Prop := next x = some y

/-- No node leads back to itself. -/
def Acyclic (next : ν → Option ν) : Prop := ∀ x, ¬ Relation.TransGen (Link next) x x

/-- Every chain comes to an end. -/
def Ends (next : ν → Option ν) : Prop := ∀ x, Acc (fun y x => Link next x y) x

theorem ends_empty : Ends (fun _ : ν => none) := fun _ => ⟨_, fun _ h => nomatch h⟩

theorem Ends.acyclic (h : Ends next) : Acyclic next := by
  intro x
  induction h x with
  | intro x _ ih =>
    intro hx
    obtain ⟨y, hxy, hyx⟩ := Relation.TransGen.head'_iff.1 hx
    exact ih y hxy (Relation.TransGen.tail' hyx hxy)

section Change

variable [DecidableEq ν]

theorem Ends.cut (h : Ends next) (x : ν) : Ends (Function.update next x none) := by
  refine fun z => Subrelation.accessible (fun {b a} hab => ?_) (h z)
  by_cases ha : a = x
  · rw [Link, ha, Function.update_self] at hab
    cases hab
  · rwa [Link, Function.update_of_ne ha] at hab

/-- A chain that does not come to `x` does not see the link of `x`. -/
theorem Ends.avoids (h : Ends next) {o : Option ν} (hx : ¬ Relation.ReflTransGen (Link next) y x) :
    Acc (fun b a => Link (Function.update next x o) a b) y := by
  induction h y with
  | intro y _ ih =>
    have hne : y ≠ x := by
      rintro rfl
      exact hx .refl
    refine ⟨_, fun z hz => ?_⟩
    rw [Link, Function.update_of_ne hne] at hz
    exact ih z hz fun hzx => hx (.head hz hzx)

theorem Ends.link (h : Ends next) (hyx : ¬ Relation.ReflTransGen (Link next) y x) :
    Ends (Function.update next x (some y)) := by
  intro z
  induction h z with
  | intro z _ ih =>
    refine ⟨_, fun w hw => ?_⟩
    by_cases hz : z = x
    · rw [Link, hz, Function.update_self] at hw
      obtain rfl := Option.some.inj hw
      exact h.avoids hyx
    · rw [Link, Function.update_of_ne hz] at hw
      exact ih w hw

/-- A chain to `x` can do without the link of `x`. -/
theorem leads_update {o : Option ν} (hyx : Relation.ReflTransGen (Link next) y x) :
    Relation.ReflTransGen (Link (Function.update next x o)) y x := by
  induction hyx using Relation.ReflTransGen.head_induction_on with
  | refl => exact .refl
  | @head a b hab _ ih =>
    by_cases ha : a = x
    · rw [ha]
    · refine .head ?_ ih
      rwa [Link, Function.update_of_ne ha]

/-- A new link to a node that leads back closes a cycle. -/
theorem not_acyclic_link (hyx : Relation.ReflTransGen (Link next) y x) :
    ¬ Acyclic (Function.update next x (some y)) := by
  intro hac
  have hlink : Link (Function.update next x (some y)) x y := Function.update_self x _ next
  exact hac x (.head' hlink (leads_update hyx))

/-- A new link closes a cycle exactly when its target leads to its start. -/
theorem acyclic_link_iff (h : Ends next) :
    Acyclic (Function.update next x (some y)) ↔ ¬ Relation.ReflTransGen (Link next) y x :=
  ⟨fun hac hyx => not_acyclic_link hyx hac, fun hyx => (h.link hyx).acyclic⟩

end Change

end Os161.Lib.Chains
