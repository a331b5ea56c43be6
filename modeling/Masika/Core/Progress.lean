import Mathlib.Logic.Relation
import Mathlib.Tactic.Common

/-!
# What a machine gets to

A machine is a step function `σ → Option σ`; `none` means that it has stopped.  `LeadsTo step P Q`
is total correctness for code that is not structured: from every state of `P` some number of steps
leads to a state of `Q`.  There is no fuel in it, and a machine that runs for ever leads nowhere.

* `LeadsTo.trans` puts pieces of code together.
* `LeadsTo.rounds` is the rule for a loop that counts: the invariant of a round leads to that of the
  next one.
-/

namespace Masika

variable {σ : Type*} {step : σ → Option σ}

/-- Steps lead from one state to another. -/
abbrev StepsTo (step : σ → Option σ) : σ → σ → Prop :=
  Relation.ReflTransGen fun s t => step s = some t

/-- From every state of `P` the machine gets to a state of `Q`. -/
def LeadsTo (step : σ → Option σ) (P Q : σ → Prop) : Prop :=
  ∀ s, P s → ∃ t, StepsTo step s t ∧ Q t

/-- A step, and what comes after it. -/
lemma StepsTo.cons {s t u : σ} (h : step s = some t) (hrest : StepsTo step t u) :
    StepsTo step s u := Relation.ReflTransGen.head h hrest

/-- The state after `n` steps. -/
def afterSteps (step : σ → Option σ) : ℕ → σ → Option σ
  | 0, s => some s
  | n + 1, s => (step s).bind (afterSteps step n)

/-- Steps that can be computed. -/
lemma StepsTo.compute {s t : σ} (n : ℕ) (h : afterSteps step n s = some t) : StepsTo step s t := by
  induction n generalizing s with
  | zero =>
    obtain rfl : s = t := Option.some.inj h
    exact Relation.ReflTransGen.refl
  | succ n ih =>
    obtain ⟨u, hu, hrest⟩ := Option.bind_eq_some_iff.mp h
    exact StepsTo.cons hu (ih hrest)

lemma leadsTo_of_imp {P Q : σ → Prop} (h : ∀ s, P s → Q s) : LeadsTo step P Q :=
  fun s hs => ⟨s, Relation.ReflTransGen.refl, h s hs⟩

lemma LeadsTo.trans {P Q R : σ → Prop} (h : LeadsTo step P Q) (h' : LeadsTo step Q R) :
    LeadsTo step P R := by
  intro s hs
  obtain ⟨t, hst, ht⟩ := h s hs
  obtain ⟨u, htu, hu⟩ := h' t ht
  exact ⟨u, hst.trans htu, hu⟩

/-- **Loops that count.**  By induction on the number of rounds. -/
theorem LeadsTo.rounds {I : ℕ → σ → Prop} {n : ℕ}
    (h : ∀ i < n, LeadsTo step (I i) (I (i + 1))) : LeadsTo step (I 0) (I n) := by
  induction n with
  | zero => exact leadsTo_of_imp fun _ hs => hs
  | succ n ih =>
    have hfirst := ih fun i hi => h i (Nat.lt_succ_of_lt hi)
    exact hfirst.trans (h n (Nat.lt_succ_self n))

end Masika
