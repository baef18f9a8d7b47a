/-
Delegation histories. A history is a list of events; `Grant h e g u` says that event `e`, coming after history `h`, is a
grant made by `g` to `u`. `Linked` is the finite chain of grants from a root to a principal, each link made by someone
linked strictly earlier.

`linked_of_holds`: if a right is only ever gained through a grant by a root or by someone who holds it at that moment,
then everyone who holds it is linked.
-/
import Mathlib.Tactic

namespace Concordia.Lib

variable {ε υ : Type*} {Root : υ → Prop} {Grant : List ε → ε → υ → υ → Prop}

/-- a finite chain of grants from a root to the principal -/
inductive Linked (Root : υ → Prop) (Grant : List ε → ε → υ → υ → Prop) : List ε → υ → Prop where
  | root {h : List ε} {u : υ} (hu : Root u) : Linked Root Grant h u
  | grant {a b : List ε} {e : ε} {g u : υ} (hg : Grant a e g u) (hl : Linked Root Grant a g) :
    Linked Root Grant (a ++ e :: b) u

theorem Linked.extend {h : List ε} {u : υ} (hl : Linked Root Grant h u) (more : List ε) :
    Linked Root Grant (h ++ more) u := by
  cases hl with
  | root hu => exact .root hu
  | grant hg hl => rw [List.append_assoc, List.cons_append]; exact .grant hg hl

/-- **Chain rule.** A right gained only through grants by its holders reaches everyone by a chain from a root. -/
theorem linked_of_holds {H : List ε → υ → Prop} (h0 : ∀ u, H [] u → Root u)
    (hgain : ∀ h e u, H (h ++ [e]) u → H h u ∨ Root u ∨ ∃ g, Grant h e g u ∧ (Root g ∨ H h g)) :
    ∀ h u, H h u → Linked Root Grant h u := by
  intro h
  induction h using List.reverseRecOn with
  | nil => exact fun u hu => .root (h0 u hu)
  | append_singleton h e ih =>
    intro u hu
    rcases hgain h e u hu with hold | hroot | ⟨g, hg, hroot | hold⟩
    · exact (ih u hold).extend [e]
    · exact .root hroot
    · exact .grant hg (.root hroot)
    · exact .grant hg (ih g hold)

end Concordia.Lib
