/-!
This module contains two computations that succeed together or fail together, with the same error.
-/

namespace ElfCraft
namespace Exec

variable {ε α β : Type}

inductive Lockstep (R : α → β → Prop) : Except ε α → Except ε β → Prop where
  | error (e : ε) : Lockstep R (.error e) (.error e)
  | ok (a : α) (b : β) (h : R a b) : Lockstep R (.ok a) (.ok b)

namespace Lockstep

variable {R : α → β → Prop} {x x' : Except ε α} {y y' : Except ε β}

theorem refl {R : α → α → Prop} (h : ∀ a, R a a) (x : Except ε α) : Lockstep R x x := by
  cases x with
  | error e => exact .error e
  | ok a => exact .ok a a (h a)

/--
The rule for a branch that both of them take.
-/
theorem ite {c c' : Prop} [Decidable c] [Decidable c'] (hc : c ↔ c') (hthen : c → Lockstep R x y)
    (helse : ¬ c → Lockstep R x' y')
    : Lockstep R (if c then x else x') (if c' then y else y') := by
  by_cases h : c
  . rw [if_pos h, if_pos (hc.mp h)]
    apply hthen h
  . rw [if_neg h, if_neg (fun h' => h (hc.mpr h'))]
    apply helse h

theorem ok_left {a : α} (h : Lockstep R x y) (hx : x = .ok a) : ∃ b, y = .ok b ∧ R a b := by
  cases h with
  | error e => contradiction
  | ok a' b hr =>
    rw [Except.ok.injEq] at hx
    rw [hx] at hr
    exact ⟨b, rfl, hr⟩

end Lockstep

end Exec
end ElfCraft
