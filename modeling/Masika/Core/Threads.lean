import Mathlib.Logic.Function.Basic
import Masika.Core.Progress
import Masika.Core.Runs

/-!
# Threads and the order in which their operations take effect

Any number of threads use a shared object.  A thread is at some place of its code (`π`), and in its
turn it does one atomic action: it changes the object, goes to another place, and may return the
result of a call.  `κ` is what the turn depends on besides: which call is made, whether an exchange
fails for no reason.  The threads take turns in any order.

A call is spread over many turns, but it takes effect in one of them, and `commit` says in which.
`committed` collects the effects along a run.

* `run_committed` is the rule for properties of this order.
* `Linearizes` asks of one turn of one thread what makes a run of all threads equivalent to doing
  the committed operations one at a time: the object changes as the sequential operation changes it,
  what has taken effect and has not been returned can be read off the place (`pending`), and turns
  of other threads do not interfere with that.
* `Linearizes.run` is the result: the committed operations are a sequential history of the object,
  and what each thread has been answered is, in order, what was committed for it.
* `Guards` asks of one turn what makes a flag of the object a lock for some places of the code, and
  `MutuallyExcluded.step` is the step of mutual exclusion.
* `Threads.uninterrupted` is one thread on its own, and `Threads.run_uninterrupted` puts what it
  does into a run of all threads.
-/

namespace Masika

section Committed

variable {σ ι ε : Type*}

/-- What takes effect along a run, in order. -/
def committed (step : σ → ι → Option σ) (commit : σ → ι → List ε) : σ → List ι → List ε
  | _, [] => []
  | s, i :: is => commit s i ++ (step s i).elim [] fun s' => committed step commit s' is

/-- **Properties of what has been committed.**  By induction on the run. -/
theorem run_committed {step : σ → ι → Option σ} {commit : σ → ι → List ε} {P : List ε → σ → Prop}
    (hstep : ∀ done s i s', P done s → step s i = some s' → P (done ++ commit s i) s') :
    ∀ {is : List ι} {done : List ε} {s t : σ}, P done s → run step s is = some t →
      P (done ++ committed step commit s is) t := by
  intro is
  induction is with
  | nil =>
    intro done s t hs h
    rw [run_nil, Option.some.injEq] at h
    rw [committed, List.append_nil, ← h]
    exact hs
  | cons i is ih =>
    intro done s t hs h
    obtain ⟨s', hs', hrest⟩ := run_cons_eq_some.mp h
    have hnext := ih (hstep done s i s' hs hs') hrest
    rw [committed, hs', Option.elim_some, ← List.append_assoc]
    exact hnext

end Committed

variable {ι σ π κ δ α : Type*}

/-- The shared object, where each thread is, and what its calls have returned so far. -/
structure Threads (ι σ π δ : Type*) where
  shared : σ
  place : ι → π
  answers : ι → List δ

/-- The code of a thread: what its turn does, with the result that it returns, if it returns one,
and the operations that take effect in it. -/
structure ThreadCode (σ π κ δ : Type*) where
  turn : σ → π → κ → Option (σ × π × Option δ)
  commit : σ → π → κ → List δ

namespace Threads

/-- All threads at one place. -/
def start (s : σ) (p : π) : Threads ι σ π δ := ⟨s, fun _ => p, fun _ => []⟩

variable [DecidableEq ι]

/-- A turn of thread `t`. -/
def step (code : ThreadCode σ π κ δ) (x : Threads ι σ π δ) (turn : ι × κ) :
    Option (Threads ι σ π δ) :=
  (code.turn x.shared (x.place turn.1) turn.2).map fun (s, p, result) =>
    { shared := s
      place := Function.update x.place turn.1 p
      answers := Function.update x.answers turn.1 (x.answers turn.1 ++ result.toList) }

/-- What takes effect in a turn, with the thread it takes effect for. -/
def commit (code : ThreadCode σ π κ δ) (x : Threads ι σ π δ) (turn : ι × κ) : List (ι × δ) :=
  (code.commit x.shared (x.place turn.1) turn.2).map (turn.1, ·)

end Threads

/-- What was committed for thread `t`. -/
def committedFor [DecidableEq ι] (t : ι) (done : List (ι × δ)) : List δ :=
  (done.filter (·.1 = t)).map Prod.snd

/-- One turn of the code keeps to the sequential object `perform`, of which `view` is the state. -/
structure Linearizes (code : ThreadCode σ π κ δ) (perform : α → δ → Option α) (view : σ → α)
    (Ok : σ → π → Prop) (pending : σ → π → List δ) : Prop where
  performs : ∀ {s p k s' p' result}, Ok s p → code.turn s p k = some (s', p', result) →
    run perform (view s) (code.commit s p k) = some (view s')
  ok : ∀ {s p k s' p' result}, Ok s p → code.turn s p k = some (s', p', result) → Ok s' p'
  answers : ∀ {s p k s' p' result}, Ok s p → code.turn s p k = some (s', p', result) →
    pending s p ++ code.commit s p k = result.toList ++ pending s' p'
  others : ∀ {s p k s' p' result}, Ok s p → code.turn s p k = some (s', p', result) →
    ∀ q, (Ok s q → Ok s' q) ∧ pending s' q = pending s q

section Linearizes

variable [DecidableEq ι] {code : ThreadCode σ π κ δ} {perform : α → δ → Option α} {view : σ → α}
  {Ok : σ → π → Prop} {pending : σ → π → List δ}

/-- The committed operations are a sequential history from `a` on, and each thread has been answered
what was committed for it, except for what is pending. -/
structure Linearized (perform : α → δ → Option α) (view : σ → α) (Ok : σ → π → Prop)
    (pending : σ → π → List δ) (a : α) (done : List (ι × δ)) (x : Threads ι σ π δ) : Prop where
  sequential : run perform a (done.map Prod.snd) = some (view x.shared)
  ok : ∀ t, Ok x.shared (x.place t)
  answers : ∀ t, committedFor t done = x.answers t ++ pending x.shared (x.place t)

lemma committedFor_append (t : ι) (done more : List (ι × δ)) :
    committedFor t (done ++ more) = committedFor t done ++ committedFor t more := by
  rw [committedFor, List.filter_append, List.map_append]
  rfl

lemma committedFor_self (t : ι) (ds : List δ) : committedFor t (ds.map (t, ·)) = ds := by
  induction ds with
  | nil => rfl
  | cons d ds ih =>
    simp only [committedFor, List.map_cons, decide_true, List.filter_cons_of_pos]
    exact congrArg (d :: ·) ih

lemma committedFor_other {t u : ι} (h : u ≠ t) (ds : List δ) :
    committedFor t (ds.map (u, ·)) = [] := by
  induction ds with
  | nil => rfl
  | cons d ds ih => simp [committedFor, h]

lemma Linearized.step (hcode : Linearizes code perform view Ok pending) {a : α}
    (done : List (ι × δ)) (x : Threads ι σ π δ) (turn : ι × κ) (x' : Threads ι σ π δ)
    (hx : Linearized perform view Ok pending a done x) (h : x.step code turn = some x') :
    Linearized perform view Ok pending a (done ++ x.commit code turn) x' := by
  obtain ⟨u, k⟩ := turn
  obtain ⟨⟨s, p, result⟩, hturn, rfl⟩ := Option.map_eq_some_iff.mp h
  have hok := hx.ok u
  refine ⟨?_, fun t => ?_, fun t => ?_⟩
  · have hsnd : (x.commit code (u, k)).map Prod.snd = code.commit x.shared (x.place u) k := by
      simp [Threads.commit, Function.comp_def]
    rw [List.map_append, hsnd, run_append, hx.sequential, Option.bind_some]
    exact hcode.performs hok hturn
  · by_cases ht : t = u
    · subst ht
      simpa using hcode.ok hok hturn
    · simpa [Function.update_of_ne ht] using (hcode.others hok hturn (x.place t)).1 (hx.ok t)
  · rw [committedFor_append, hx.answers t, Threads.commit]
    by_cases ht : t = u
    · subst ht
      simp only [committedFor_self, Function.update_self, List.append_assoc,
        hcode.answers hok hturn]
    · rw [committedFor_other (Ne.symm ht)]
      simp only [Function.update_of_ne ht, List.append_nil,
        (hcode.others hok hturn (x.place t)).2]

/-- **Interleaved code and the sequential object.** -/
theorem Linearizes.run (hcode : Linearizes code perform view Ok pending) {s : σ} {p : π}
    (hok : Ok s p) (hpending : pending s p = []) {turns : List (ι × κ)} {x : Threads ι σ π δ}
    (h : run (Threads.step code) (Threads.start s p) turns = some x) :
    Linearized perform view Ok pending (view s)
      (committed (Threads.step code) (Threads.commit code) (Threads.start s p) turns) x := by
  have hstart : Linearized perform view Ok pending (view s) []
      (Threads.start s p : Threads ι σ π δ) := by
    refine ⟨rfl, fun _ => hok, fun t => ?_⟩
    rw [Threads.start, hpending]
    rfl
  exact run_committed (Linearized.step hcode) hstart h

end Linearizes

/-! ## Mutual exclusion -/

/-- The flag `locked` is taken where a thread goes inside, and changed only by threads inside. -/
structure Guards (code : ThreadCode σ π κ δ) (allowed : π → κ → Prop) (locked : σ → Bool)
    (inside : π → Prop) : Prop where
  enters : ∀ {s p k s' p' result}, allowed p k → code.turn s p k = some (s', p', result) →
    ¬ inside p → inside p' → locked s = false ∧ locked s' = true
  outside : ∀ {s p k s' p' result}, allowed p k → code.turn s p k = some (s', p', result) →
    ¬ inside p → ¬ inside p' → locked s' = locked s
  stays : ∀ {s p k s' p' result}, allowed p k → code.turn s p k = some (s', p', result) →
    inside p → inside p' → locked s' = locked s

/-- At most one thread is inside, and then the flag is set. -/
def MutuallyExcluded (locked : σ → Bool) (inside : π → Prop) (x : Threads ι σ π δ) : Prop :=
  ∀ t, inside (x.place t) → locked x.shared = true ∧ ∀ u, inside (x.place u) → u = t

section Guards

variable [DecidableEq ι] {code : ThreadCode σ π κ δ} {allowed : π → κ → Prop} {locked : σ → Bool}
  {inside : π → Prop}

lemma MutuallyExcluded.step (hcode : Guards code allowed locked inside) {x x' : Threads ι σ π δ}
    {turn : ι × κ} (hx : MutuallyExcluded locked inside x) (hok : allowed (x.place turn.1) turn.2)
    (h : x.step code turn = some x') : MutuallyExcluded locked inside x' := by
  obtain ⟨t, k⟩ := turn
  obtain ⟨⟨s, p, result⟩, hturn, rfl⟩ := Option.map_eq_some_iff.mp h
  intro u hu
  by_cases hut : u = t
  · subst hut
    simp only [Function.update_self] at hu ⊢
    -- the thread is alone inside: it was before, or the flag was free
    have halone : ∀ v, v ≠ u → ¬ inside (x.place v) := by
      intro v hv hin
      by_cases hwas : inside (x.place u)
      · exact hv ((hx u hwas).2 v hin)
      · have hfree := (hcode.enters hok hturn hwas hu).1
        exact absurd ((hx v hin).1.symm.trans hfree) (by simp)
    refine ⟨?_, fun v hv => ?_⟩
    · by_cases hwas : inside (x.place u)
      · exact (hcode.stays hok hturn hwas hu).trans (hx u hwas).1
      · exact (hcode.enters hok hturn hwas hu).2
    · by_contra hne
      rw [Function.update_of_ne hne] at hv
      exact halone v hne hv
  · simp only [Function.update_of_ne hut] at hu ⊢
    obtain ⟨hlocked, hunique⟩ := hx u hu
    have hout : ¬ inside (x.place t) := fun hin => hut (hunique t hin).symm
    -- the thread whose turn it is was outside, and finds the flag set
    have hout' : ¬ inside p := by
      intro hin
      have hfree := (hcode.enters hok hturn hout hin).1
      exact absurd (hlocked.symm.trans hfree) (by simp)
    refine ⟨(hcode.outside hok hturn hout hout').trans hlocked, fun v hv => ?_⟩
    by_cases hvt : v = t
    · subst hvt
      rw [Function.update_self] at hv
      exact absurd hv hout'
    · rw [Function.update_of_ne hvt] at hv
      exact hunique v hv

end Guards

/-! ## A thread that is not interrupted -/

/-- The turns of one thread, which always depend on the same `k`, with what it has been answered. -/
def Threads.uninterrupted (code : ThreadCode σ π κ δ) (k : κ) (x : σ × π × List δ) :
    Option (σ × π × List δ) :=
  (code.turn x.1 x.2.1 k).map fun (s, p, result) => (s, p, x.2.2 ++ result.toList)

/-- `y` is what becomes of `x` when only thread `t` has its turns, and has got to the state `z`. -/
structure Threads.OnlyMoved (t : ι) (x : Threads ι σ π δ) (z : σ × π × List δ)
    (y : Threads ι σ π δ) : Prop where
  own : (y.shared, y.place t, y.answers t) = z
  others : ∀ u ≠ t, y.place u = x.place u ∧ y.answers u = x.answers u

/-- **What a thread does without interruption is a run of the threads**, in which all turns are its
own. -/
theorem Threads.run_uninterrupted [DecidableEq ι] {code : ThreadCode σ π κ δ} {k : κ} {t : ι}
    {x : Threads ι σ π δ} {y z : σ × π × List δ} (hx : (x.shared, x.place t, x.answers t) = y)
    (h : StepsTo (Threads.uninterrupted code k) y z) :
    ∃ n x', run (Threads.step code) x (List.replicate n (t, k)) = some x' ∧ OnlyMoved t x z x' := by
  induction h with
  | refl => exact ⟨0, x, rfl, hx, fun _ _ => ⟨rfl, rfl⟩⟩
  | @tail y₁ z₁ _ hstep ih =>
    obtain ⟨n, x₁, hturns, hown, hothers⟩ := ih
    obtain ⟨⟨s, p, result⟩, hturn, rfl⟩ := Option.map_eq_some_iff.mp hstep
    subst hown
    have hlast : x₁.step code (t, k) = some ⟨s, Function.update x₁.place t p,
        Function.update x₁.answers t (x₁.answers t ++ result.toList)⟩ := by
      rw [Threads.step, hturn]
      rfl
    refine ⟨n + 1, ⟨s, Function.update x₁.place t p,
      Function.update x₁.answers t (x₁.answers t ++ result.toList)⟩, ?_, ?_, fun u hu => ?_⟩
    · rw [List.replicate_succ', run_append, hturns, Option.bind_some, run, hlast]
      rfl
    · simp
    · simp only [Function.update_of_ne hu]
      exact hothers u hu

end Masika
