import Mathlib.Data.Nat.Notation
import Mathlib.Logic.Basic
import Mathlib.Tactic.TypeStar

/-!
# Runs of a partial step function

A component is modelled by a step function `σ → ι → Option σ`: the input `i` takes the state `s`
to `step s i`, and `none` means that the component does not come back (it aborts, or the caller
broke its side of the contract).  A *run* feeds it a list of inputs.

Nine rules carry every statement about runs in this development.

* `run_invariant` — what every step preserves holds wherever a run ends.
* `run_invariant_of_meets` — the same, for the runs whose steps all meet a condition `ok`.  The
  condition may look at the state before the step, so `Meets` follows the run.
* `always_iff_meets` and `always_iff_meets_of_meets` — when the condition says exactly which steps
  keep a property, the runs whose steps meet it are exactly the runs in which the property holds
  throughout (`Always`).
* `meets_of_always` — what every step does as long as the property holds.
* `always_iff_last` — a property that no step restores holds throughout if it holds at the end.
* `run_history` — an invariant that speaks about the inputs of the run so far.
* `run_range_invariant` — one that speaks about the number of rounds, for a counting loop.
* `run_simulates` — a relation to a *total* abstract step function that every step preserves
  relates the end of the run to the abstract run on the same inputs.
* `follows_iff_eachMeets` — when a condition says exactly which inputs are followed, it says for
  which inputs the state is, throughout the run, what they ask for (`Follows`).

`Since` is for conditions on the inputs themselves: one of a kind, and none of another kind after
it.
-/

namespace Masika

variable {σ ι α : Type*}

/-- Feed the inputs one after another; the run stops at the first step that does not come back. -/
def run (step : σ → ι → Option σ) : σ → List ι → Option σ
  | s, [] => some s
  | s, i :: is => (step s i).bind fun s' => run step s' is

/-- Every step of the run meets `ok` in the state it starts from. -/
def Meets (ok : σ → ι → Prop) (step : σ → ι → Option σ) : σ → List ι → Prop
  | _, [] => True
  | s, i :: is => ok s i ∧ ∀ s', step s i = some s' → Meets ok step s' is

variable {step : σ → ι → Option σ} {ok c : σ → ι → Prop} {I P : σ → Prop} {s t : σ} {i : ι}
  {is : List ι}

@[simp] lemma run_nil (step : σ → ι → Option σ) (s : σ) : run step s [] = some s := rfl

lemma run_cons_eq_some :
    run step s (i :: is) = some t ↔ ∃ s', step s i = some s' ∧ run step s' is = some t := by
  simp only [run, Option.bind_eq_some_iff]

/-- **Invariants of conditional runs.**  Proved by induction on the inputs, generalising the
state: the hypothesis `Meets` for the tail is the one instantiated at the state just reached. -/
theorem run_invariant_of_meets (hstep : ∀ s i s', P s → ok s i → step s i = some s' → P s') :
    ∀ {is : List ι} {s t : σ}, P s → Meets ok step s is → run step s is = some t → P t := by
  intro is
  induction is with
  | nil =>
    intro s t hs _ h
    rw [run_nil, Option.some.injEq] at h
    rw [← h]; exact hs
  | cons i is ih =>
    intro s t hs hok h
    obtain ⟨s', hs', h⟩ := run_cons_eq_some.mp h
    exact ih (hstep s i s' hs hok.1 hs') (hok.2 s' hs') h

/-- The same for steps that always come back: so does the run. -/
theorem run_total_of_meets (hstep : ∀ s i, P s → ok s i → ∃ s', step s i = some s' ∧ P s') :
    ∀ {is : List ι} {s : σ}, P s → Meets ok step s is → ∃ t, run step s is = some t ∧ P t := by
  intro is
  induction is with
  | nil => exact fun {s} hs _ => ⟨s, rfl, hs⟩
  | cons i is ih =>
    intro s hs hok
    obtain ⟨s', hs', hP⟩ := hstep s i hs hok.1
    obtain ⟨t, ht, hPt⟩ := ih hP (hok.2 s' hs')
    exact ⟨t, run_cons_eq_some.mpr ⟨s', hs', ht⟩, hPt⟩

/-- `P` holds in every state that the run reaches. -/
def Always (P : σ → Prop) (step : σ → ι → Option σ) : σ → List ι → Prop
  | s, [] => P s
  | s, i :: is => P s ∧ ∀ s', step s i = some s' → Always P step s' is

lemma Always.head (h : Always P step s is) : P s := by
  cases is with
  | nil => exact h
  | cons i is => exact h.1

/-- **Exact conditions.**  `ok` says which steps keep `P`, in states in which the invariant `I`
holds; the runs are those whose steps meet `c`. -/
theorem always_iff_meets_of_meets (hinv : ∀ s i s', I s → c s i → step s i = some s' → I s')
    (hexact : ∀ s i, I s → c s i → P s → (ok s i ↔ ∀ s', step s i = some s' → P s')) :
    ∀ {is : List ι} {s : σ}, I s → P s → Meets c step s is →
      (Always P step s is ↔ Meets ok step s is) := by
  intro is
  induction is with
  | nil => exact fun {s} _ hP _ => ⟨fun _ => trivial, fun _ => hP⟩
  | cons i is ih =>
    intro s hI hP hc
    rw [Always, Meets, hexact s i hI hc.1 hP]
    constructor
    · rintro ⟨-, hrest⟩
      have hnext : ∀ s', step s i = some s' → P s' := fun s' hs' => (hrest s' hs').head
      exact ⟨hnext, fun s' hs' =>
        (ih (hinv s i s' hI hc.1 hs') (hnext s' hs') (hc.2 s' hs')).mp (hrest s' hs')⟩
    · rintro ⟨hnext, hrest⟩
      exact ⟨hP, fun s' hs' =>
        (ih (hinv s i s' hI hc.1 hs') (hnext s' hs') (hc.2 s' hs')).mpr (hrest s' hs')⟩

/-- What a step does in states with `I` and `P`, every step of a run does in which `P` always
holds. -/
theorem meets_of_always {q : σ → ι → Prop}
    (hinv : ∀ s i s', I s → c s i → step s i = some s' → I s') (hq : ∀ s i, I s → P s → q s i) :
    ∀ {is : List ι} {s : σ}, I s → Meets c step s is → Always P step s is → Meets q step s is := by
  intro is
  induction is with
  | nil => exact fun _ _ _ => trivial
  | cons i is ih =>
    intro s hI hc hP
    exact ⟨hq s i hI hP.1, fun s' hs' =>
      ih (hinv s i s' hI hc.1 hs') (hc.2 s' hs') (hP.2 s' hs')⟩

/-- A condition that the inputs meet in every state. -/
lemma meets_of_forall_mem (h : ∀ i ∈ is, ∀ s, ok s i) (s : σ) : Meets ok step s is := by
  induction is generalizing s with
  | nil => trivial
  | cons i is ih =>
    refine ⟨h i List.mem_cons_self s, fun s' _ => ?_⟩
    exact ih (fun j hj => h j (List.mem_cons_of_mem i hj)) s'

/-- A condition that always holds is met by every run. -/
lemma meets_of_forall (h : ∀ s i, ok s i) (is : List ι) (s : σ) : Meets ok step s is :=
  meets_of_forall_mem (fun i _ s => h s i) s

/-- Exact conditions, for all runs. -/
theorem always_iff_meets (hinv : ∀ s i s', I s → step s i = some s' → I s')
    (hexact : ∀ s i, I s → P s → (ok s i ↔ ∀ s', step s i = some s' → P s')) {is : List ι} {s : σ}
    (hI : I s) (hP : P s) : Always P step s is ↔ Meets ok step s is :=
  have hall : Meets (fun _ _ => True) step s is := meets_of_forall (fun _ _ => trivial) is s
  always_iff_meets_of_meets (fun s i s' hI _ => hinv s i s' hI) (fun s i hI _ => hexact s i hI) hI
    hP hall

/-- A property that no step restores is decided by the last state. -/
lemma always_iff_last (hback : ∀ s i s', step s i = some s' → P s' → P s) :
    ∀ {is : List ι} {s t : σ}, run step s is = some t → (Always P step s is ↔ P t) := by
  intro is
  induction is with
  | nil =>
    intro s t h
    rw [Option.some.inj h, Always]
  | cons i is ih =>
    intro s t h
    obtain ⟨s', hs', hrest⟩ := run_cons_eq_some.mp h
    rw [Always]
    constructor
    · rintro ⟨-, hall⟩
      exact (ih hrest).mp (hall s' hs')
    · intro hP
      have hall : Always P step s' is := (ih hrest).mpr hP
      refine ⟨hback s i s' hs' hall.head, fun s'' hs'' => ?_⟩
      rw [hs', Option.some.injEq] at hs''
      rwa [← hs'']

/-- **Invariants of runs.** -/
theorem run_invariant (hstep : ∀ s i s', P s → step s i = some s' → P s') (hs : P s)
    (h : run step s is = some t) : P t :=
  have hmeets : Meets (fun _ _ => True) step s is := meets_of_forall (fun _ _ => trivial) is s
  run_invariant_of_meets (fun s i s' hP _ => hstep s i s' hP) hs hmeets h

/-- **Invariants that mention the past.**  `P` relates the inputs so far to the state. -/
theorem run_history {P : List ι → σ → Prop}
    (hstep : ∀ done i s s', P done s → step s i = some s' → P (done ++ [i]) s') :
    ∀ {is done : List ι} {s t : σ}, P done s → run step s is = some t → P (done ++ is) t := by
  intro is
  induction is with
  | nil =>
    intro done s t hs h
    rw [run_nil, Option.some.injEq] at h
    rw [List.append_nil, ← h]
    exact hs
  | cons i is ih =>
    intro done s t hs h
    obtain ⟨s', hs', h⟩ := run_cons_eq_some.mp h
    have := ih (hstep done i s s' hs hs') h
    rwa [List.append_assoc, List.singleton_append] at this

lemma run_append (step : σ → ι → Option σ) (is js : List ι) : ∀ s : σ,
    run step s (is ++ js) = (run step s is).bind fun t => run step t js := by
  induction is with
  | nil => exact fun s => rfl
  | cons i is ih =>
    intro s
    rw [List.cons_append, run, run, Option.bind_assoc]
    exact congrArg (step s i).bind (funext fun t => ih t)

/-- **Counting loops.**  `P` says what holds before round `i`. -/
theorem run_range_invariant {step : σ → ℕ → Option σ} {P : ℕ → σ → Prop} {n : ℕ}
    (hstep : ∀ i < n, ∀ s s', P i s → step s i = some s' → P (i + 1) s') {s : σ} (hs : P 0 s) :
    ∀ {t : σ}, run step s (List.range n) = some t → P n t := by
  induction n with
  | zero =>
    intro t h
    rw [List.range_zero, run_nil, Option.some.injEq] at h
    exact h ▸ hs
  | succ n ih =>
    intro t h
    rw [List.range_succ, run_append, Option.bind_eq_some_iff] at h
    obtain ⟨s', hs', h⟩ := h
    obtain ⟨t', ht', h⟩ := run_cons_eq_some.mp h
    rw [run_nil, Option.some.injEq] at h
    rw [← h]
    exact hstep n (Nat.lt_succ_self n) s' t'
      (ih (fun i hi => hstep i (Nat.lt_succ_of_lt hi)) hs') ht'

/-- **Simulation along runs.**  A relation kept by every step relates the end of a run to the
abstract run on the same inputs. -/
theorem run_simulates {absStep : α → ι → α} {R : σ → α → Prop}
    (hstep : ∀ s i s' a, R s a → step s i = some s' → R s' (absStep a i)) :
    ∀ {is : List ι} {s t : σ} {a : α}, R s a → run step s is = some t →
      R t (is.foldl absStep a) := by
  intro is
  induction is with
  | nil =>
    intro s t a hs h
    rw [run_nil, Option.some.injEq] at h
    rw [← h]; exact hs
  | cons i is ih =>
    intro s t a hs h
    obtain ⟨s', hs', h⟩ := run_cons_eq_some.mp h
    exact ih (hstep s i s' a hs hs') h

/-! ## Following what was asked for -/

/-- At every point of the run, the state is related by `R` to what the inputs so far ask for, as
`absStep` puts it together. -/
def Follows (R : σ → α → Prop) (step : σ → ι → Option σ) (absStep : α → ι → α) (s : σ) (a : α)
    (is : List ι) : Prop :=
  ∀ hist, hist <+: is → ∃ t, run step s hist = some t ∧ R t (hist.foldl absStep a)

/-- Every input meets `ok` after what the inputs before it ask for. -/
def EachMeets (ok : α → ι → Prop) (absStep : α → ι → α) (a : α) (is : List ι) : Prop :=
  ∀ before i after, is = before ++ i :: after → ok (before.foldl absStep a) i

variable {R : σ → α → Prop} {absStep : α → ι → α} {a : α}

lemma eachMeets_cons {ok : α → ι → Prop} :
    EachMeets ok absStep a (i :: is) ↔ ok a i ∧ EachMeets ok absStep (absStep a i) is := by
  constructor
  · intro h
    refine ⟨h [] i is rfl, fun before j after his => ?_⟩
    exact h (i :: before) j after (by rw [his, List.cons_append])
  · rintro ⟨hfirst, hrest⟩ before j after his
    cases before with
    | nil =>
      obtain ⟨rfl, -⟩ := List.cons.inj his
      exact hfirst
    | cons k before =>
      obtain ⟨rfl, htail⟩ := List.cons.inj his
      exact hrest before j after htail

lemma follows_cons (hs : R s a) :
    Follows R step absStep s a (i :: is) ↔
      ∃ s', step s i = some s' ∧ Follows R step absStep s' (absStep a i) is := by
  constructor
  · intro h
    obtain ⟨t, ht, -⟩ := h [i] (List.prefix_append [i] is)
    obtain ⟨s', hs', -⟩ := run_cons_eq_some.mp ht
    refine ⟨s', hs', fun hist hhist => ?_⟩
    obtain ⟨t, ht, hR⟩ := h (i :: hist) ((List.prefix_cons_inj i).mpr hhist)
    obtain ⟨s'', hs'', hrun⟩ := run_cons_eq_some.mp ht
    rw [hs', Option.some.injEq] at hs''
    exact ⟨t, hs'' ▸ hrun, hR⟩
  · rintro ⟨s', hs', h⟩ hist hhist
    rcases List.prefix_cons_iff.mp hhist with rfl | ⟨tail, rfl, htail⟩
    · exact ⟨s, rfl, hs⟩
    · obtain ⟨t, ht, hR⟩ := h tail htail
      exact ⟨t, run_cons_eq_some.mpr ⟨s', hs', ht⟩, hR⟩

lemma Follows.start (h : Follows R step absStep s a is) : R s a := by
  obtain ⟨t, ht, hR⟩ := h [] List.nil_prefix
  rw [run_nil, Option.some.injEq] at ht
  exact ht ▸ hR

/-- **Exact conditions for following.**  `ok` says which inputs are followed. -/
theorem follows_iff_eachMeets {ok : α → ι → Prop} : ∀ {is : List ι} {s : σ} {a : α},
    (∀ i ∈ is, ∀ s a, R s a → (ok a i ↔ ∃ s', step s i = some s' ∧ R s' (absStep a i))) → R s a →
      (Follows R step absStep s a is ↔ EachMeets ok absStep a is) := by
  intro is
  induction is with
  | nil =>
    intro s a _ hs
    refine iff_of_true (fun hist hhist => ?_) fun before i after h => ?_
    · rw [List.prefix_nil.mp hhist]
      exact ⟨s, rfl, hs⟩
    · cases before <;> cases h
  | cons i is ih =>
    intro s a hexact hs
    rw [List.forall_mem_cons] at hexact
    rw [follows_cons hs, eachMeets_cons, hexact.1 s a hs]
    constructor
    · rintro ⟨s', hs', hrest⟩
      exact ⟨⟨s', hs', hrest.start⟩, (ih hexact.2 hrest.start).mp hrest⟩
    · rintro ⟨⟨s', hs', hR⟩, hrest⟩
      exact ⟨s', hs', (ih hexact.2 hR).mpr hrest⟩

/-! ## Histories -/

/-- Among the inputs so far there is one that starts something, and no later one that stops it.
Whether an input starts it may depend on the inputs before. -/
def Since (start : List ι → ι → Prop) (stop : ι → Prop) (hist : List ι) : Prop :=
  ∃ before i after, hist = before ++ i :: after ∧ start before i ∧ ∀ j ∈ after, ¬ stop j

lemma not_since_nil {start : List ι → ι → Prop} {stop : ι → Prop} : ¬ Since start stop [] := by
  rintro ⟨before, i, after, h, -⟩
  cases before <;> cases h

/-- One more input: it starts the thing, or it does not stop what was started before. -/
lemma since_concat {start : List ι → ι → Prop} {stop : ι → Prop} {hist : List ι} {i : ι} :
    Since start stop (hist ++ [i]) ↔ start hist i ∨ (¬ stop i ∧ Since start stop hist) := by
  constructor
  · rintro ⟨before, j, after, h, hstart, hstop⟩
    rcases List.eq_nil_or_concat after with rfl | ⟨after, k, rfl⟩
    · obtain ⟨rfl, hij⟩ := List.append_inj' h rfl
      obtain rfl := (List.cons.inj hij).1
      exact .inl hstart
    · rw [List.concat_eq_append, ← List.cons_append, ← List.append_assoc] at h
      obtain ⟨rfl, hik⟩ := List.append_inj' h rfl
      obtain rfl := (List.cons.inj hik).1
      exact .inr ⟨hstop i (by simp), before, j, after, rfl, hstart,
        fun x hx => hstop x (by simp [hx])⟩
  · rintro (hstart | ⟨hstop, before, j, after, rfl, hstart, hrest⟩)
    · exact ⟨hist, i, [], rfl, hstart, by simp⟩
    · refine ⟨before, j, after ++ [i], by simp, hstart, fun x hx => ?_⟩
      rcases List.mem_append.mp hx with hx | hx
      · exact hrest x hx
      · rwa [List.mem_singleton.mp hx]

end Masika
