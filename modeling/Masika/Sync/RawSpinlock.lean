import Mathlib.Tactic.Common
import Masika.Core.Threads

/-!
# `RawSpinlock`

`acquire` tries a weak exchange, and after a failure it reads the flag until it is clear before it
tries again.  `release` clears the flag, and nothing ties it to an `acquire`: it can be called by a
thread that does not hold the lock.  The threads take turns in any order, one access to the flag
each.

`rawSpinlock_exclusive_iff` says that such a stray `release` is the only danger, and when it is one:
exactly if somebody holds the lock.
-/

namespace Masika

/-- Where a thread is: outside, at the exchange or at the load of `acquire`, or between `acquire`
and `release`. -/
inductive RawPlace where
  | outside | exchange | load | held
deriving DecidableEq, Repr

/-- Call `acquire` or `release`, or go on with `acquire`, where the weak exchange may fail for no
reason. -/
inductive RawChoice where
  | acquire
  | release
  | goOn (spurious : Bool)
deriving DecidableEq, Repr

/-- One access to `locked`. -/
def rawTurn (locked : Bool) : RawPlace → RawChoice → Option (Bool × RawPlace × Option Empty)
  | .outside, .acquire => some (locked, .exchange, none)
  | .exchange, .goOn spurious =>
    if spurious || locked then some (locked, .load, none) else some (true, .held, none)
  | .load, .goOn _ => some (locked, if locked then .load else .exchange, none)
  | .held, .release => some (false, .outside, none)
  | .outside, .release => some (false, .outside, none)
  | _, _ => none

/-- The lock as code of threads. -/
def rawCode : ThreadCode Bool RawPlace RawChoice Empty := ⟨rawTurn, fun _ _ _ => []⟩

variable {ι : Type*} [DecidableEq ι]

/-- All threads outside, the flag clear. -/
def rawStart (ι : Type*) : Threads ι Bool RawPlace Empty := Threads.start false .outside

/-- The flag is set while a thread holds the lock, and no two do. -/
abbrev RawExclusive (x : Threads ι Bool RawPlace Empty) : Prop :=
  MutuallyExcluded id (· = RawPlace.held) x

/-- A thread that does not hold the lock calls `release` only while nobody holds it. -/
def NoStrayRelease (x : Threads ι Bool RawPlace Empty) (turn : ι × RawChoice) : Prop :=
  turn.2 = .release → x.place turn.1 = .outside → ∀ t, x.place t ≠ .held

/-! ## One turn -/

section Turns

variable {locked locked' : Bool} {place place' : RawPlace} {choice : RawChoice}
  {result : Option Empty}

lemma rawTurn_enters (h : rawTurn locked place choice = some (locked', place', result))
    (hout : place ≠ .held) (hin : place' = .held) : locked = false ∧ locked' = true := by
  cases place <;> cases choice <;> simp only [rawTurn, reduceCtorEq] at h
  case exchange.goOn spurious =>
    split_ifs at h with hfail <;> cases h
    · exact absurd hin (by simp)
    · simp only [Bool.or_eq_true, not_or, Bool.not_eq_true] at hfail
      exact ⟨hfail.2, rfl⟩
  case load.goOn spurious =>
    cases h
    split_ifs at hin
  case outside.acquire | outside.release =>
    cases h
    exact absurd hin (by simp)
  case held.release => exact absurd rfl hout

/-- Outside the flag is cleared by a stray `release`, and not changed otherwise. -/
lemma rawTurn_outside (h : rawTurn locked place choice = some (locked', place', result))
    (hout : place ≠ .held) (hout' : place' ≠ .held) :
    locked' = locked ∨ choice = .release ∧ place = .outside ∧ locked' = false := by
  cases place <;> cases choice <;> simp only [rawTurn, reduceCtorEq] at h
  case exchange.goOn spurious =>
    split_ifs at h <;> cases h
    · exact .inl rfl
    · exact absurd rfl hout'
  case load.goOn spurious | outside.acquire =>
    cases h
    exact .inl rfl
  case outside.release =>
    cases h
    exact .inr ⟨rfl, rfl, rfl⟩
  case held.release => exact absurd rfl hout

/-- The holder does nothing but release the lock. -/
lemma rawTurn_held (h : rawTurn locked .held choice = some (locked', place', result)) :
    locked' = false ∧ place' = .outside := by
  cases choice <;> simp only [rawTurn, reduceCtorEq] at h
  cases h
  exact ⟨rfl, rfl⟩

end Turns

/-- The rules of a lock hold for everything but a `release` from outside. -/
lemma rawCode_guards :
    Guards rawCode (fun place choice => choice = .release → place ≠ .outside) id (· = .held) := by
  refine ⟨fun _ h hout hin => rawTurn_enters h hout hin, fun hok h hout hout' => ?_,
    fun _ h hin hin' => ?_⟩
  · rcases rawTurn_outside h hout hout' with hsame | ⟨hrelease, hplace, -⟩
    · exact hsame
    · exact absurd hplace (hok hrelease)
  · subst hin
    exact absurd ((rawTurn_held h).2.symm.trans hin') (by simp)

/-! ## Runs -/

/-- A stray `release` while nobody holds the lock changes nothing. -/
lemma stray_release_free {x x' : Threads ι Bool RawPlace Empty} {t : ι}
    (hfree : ∀ u, x.place u ≠ .held) (hout : x.place t = .outside)
    (h : x.step rawCode (t, .release) = some x') : RawExclusive x' := by
  obtain ⟨⟨locked, place, result⟩, hturn, rfl⟩ := Option.map_eq_some_iff.mp h
  rw [hout] at hturn
  cases hturn
  intro u hu
  by_cases hut : u = t
  · subst hut
    simp at hu
  · simp only [Function.update_of_ne hut] at hu
    exact absurd hu (hfree u)

lemma rawExclusive_step_iff (x : Threads ι Bool RawPlace Empty) (turn : ι × RawChoice)
    (hx : RawExclusive x) :
    NoStrayRelease x turn ↔ ∀ x', x.step rawCode turn = some x' → RawExclusive x' := by
  obtain ⟨t, choice⟩ := turn
  constructor
  · intro hok x' h
    by_cases hstray : choice = .release ∧ x.place t = .outside
    · obtain ⟨rfl, hout⟩ := hstray
      exact stray_release_free (hok rfl hout) hout h
    · exact hx.step rawCode_guards (fun hrelease hout => hstray ⟨hrelease, hout⟩) h
  · rintro hall hrelease hout u hu
    obtain rfl : choice = .release := hrelease
    have hout' : x.place t = .outside := hout
    have hstep : x.step rawCode (t, .release) = some
        ⟨false, Function.update x.place t .outside,
          Function.update x.answers t (x.answers t ++ [])⟩ := by
      rw [Threads.step, hout']
      rfl
    have hut : u ≠ t := fun heq => absurd (hu.symm.trans (heq ▸ hout')) (by simp)
    have hcleared := (hall _ hstep u (by simpa only [Function.update_of_ne hut] using hu)).1
    exact absurd hcleared (by simp)

/-- **When `RawSpinlock` is a lock.**  In every run of any number of threads, the flag is set while
a thread is between `acquire` and `release`, and no two threads are there, exactly if no thread
calls `release` from outside while another one holds the lock. -/
theorem rawSpinlock_exclusive_iff (turns : List (ι × RawChoice)) :
    Always RawExclusive (Threads.step rawCode) (rawStart ι) turns ↔
      Meets NoStrayRelease (Threads.step rawCode) (rawStart ι) turns :=
  always_iff_meets (I := fun _ => True) (fun _ _ _ _ _ => trivial)
    (fun x turn _ hx => rawExclusive_step_iff x turn hx) trivial
    fun _ hin => absurd hin (by simp [rawStart, Threads.start])

/-- While one thread holds the lock, another one releases it and takes it. -/
example : ((run (Threads.step rawCode) (rawStart Bool)
    [(true, .acquire), (true, .goOn false), (false, .release), (false, .acquire),
      (false, .goOn false)]).map fun x => (x.place true, x.place false))
        = some (.held, .held) := by decide

end Masika
