import Mathlib.Tactic.Common

/-!
# Programs that access memory through pointers

A program of type `Accessing L Addr Val ε α` reads and writes a memory and ends with a value of
type `α` or leaves early with an `ε`.  Every access is recorded together with a label in `L`, which
says whose pointer was followed.

* `Confined R m`: whatever the memory contains, `m` only makes accesses that `R` permits.  There is
  one rule for each way to build a program, so that confinement is proved along the text of the
  program.
* `Ends R m mem Q`: in addition, `m` does not leave early, and `Q` holds of the value and the memory
  it ends with.  Its rules `Ends.forM` and `Ends.foldlM` relate a loop to a fold.
* `scan` is the loop that looks for something: rounds with increasing index, up to a bound, until
  one of them has an answer.  `scan_cases` is the rule for its result and the memory it leaves, and
  `mem_trace_scan_probe` says exactly which addresses are read by a scan that looks for a value in
  memory.
-/

namespace Masika

/-- Reading or writing. -/
inductive AccessKind
  | read
  | write
deriving DecidableEq, Repr

/-- An access, with the pointer it goes through. -/
structure Access (L Addr : Type) where
  via : L
  kind : AccessKind
  addr : Addr
deriving DecidableEq, Repr

/-- What a program leaves behind. -/
structure Accessed (L Addr Val ε α : Type) where
  result : Except ε α
  mem : Addr → Val
  trace : List (Access L Addr)

/-- A computation on memory that records its accesses. -/
def Accessing (L Addr Val ε α : Type) : Type := (Addr → Val) → Accessed L Addr Val ε α

namespace Accessing

variable {L Addr Val ε α β : Type}

/-- Leave with `e`. -/
def exit (e : ε) : Accessing L Addr Val ε α := fun mem => ⟨.error e, mem, []⟩

/-- No access. -/
protected def pure (a : α) : Accessing L Addr Val ε α := fun mem => ⟨.ok a, mem, []⟩

/-- One after the other. -/
protected def bind (m : Accessing L Addr Val ε α) (f : α → Accessing L Addr Val ε β) :
    Accessing L Addr Val ε β := fun mem =>
  match m mem with
  | ⟨.ok a, mem', trace⟩ => { f a mem' with trace := trace ++ (f a mem').trace }
  | ⟨.error e, mem', trace⟩ => ⟨.error e, mem', trace⟩

instance : Monad (Accessing L Addr Val ε) where
  pure := Accessing.pure
  bind := Accessing.bind

lemma bind_pure_eq (m : Accessing L Addr Val ε α) : m >>= pure = m := by
  funext mem
  change Accessing.bind m Accessing.pure mem = _
  unfold Accessing.bind
  cases m mem with
  | mk result mem' trace => cases result <;> simp [Accessing.pure]

/-- Read. -/
def load (via : L) (a : Addr) : Accessing L Addr Val ε Val :=
  fun mem => ⟨.ok (mem a), mem, [⟨via, .read, a⟩]⟩

/-- Write. -/
def store [DecidableEq Addr] (via : L) (a : Addr) (v : Val) : Accessing L Addr Val ε Unit :=
  fun mem => ⟨.ok (), Function.update mem a v, [⟨via, .write, a⟩]⟩

/-- The rounds `i`, `i + 1`, .. of `body`, at most `left` of them, until one has an answer. -/
def scan (body : ℕ → Accessing L Addr Val ε (Option β)) :
    ℕ → ℕ → Accessing L Addr Val ε (Option β)
  | 0, _ => pure none
  | left + 1, i => do
    match ← body i with
    | some b => pure (some b)
    | none => scan body left (i + 1)

/-- Ending with another value changes no access. -/
lemma trace_bind_of_silent {m : Accessing L Addr Val ε α} {f : α → Accessing L Addr Val ε β}
    (hf : ∀ a mem, (f a mem).trace = []) (mem : Addr → Val) :
    ((m >>= f) mem).trace = (m mem).trace := by
  change (Accessing.bind m f mem).trace = _
  unfold Accessing.bind
  cases m mem with
  | mk result mem' trace =>
    cases result with
    | error e => rfl
    | ok a => simp [hf]

lemma trace_map (f : α → β) (m : Accessing L Addr Val ε α) (mem : Addr → Val) :
    ((f <$> m) mem).trace = (m mem).trace :=
  trace_bind_of_silent (fun _ _ => rfl) mem

lemma result_map_eq_ok {f : α → β} {m : Accessing L Addr Val ε α} {mem : Addr → Val} {b : β} :
    ((f <$> m) mem).result = .ok b ↔ ∃ a, (m mem).result = .ok a ∧ f a = b := by
  change (Accessing.bind m (fun a => Accessing.pure (f a)) mem).result = _ ↔ _
  unfold Accessing.bind
  cases m mem with
  | mk result mem' trace => cases result <;> simp [Accessing.pure]

/-! ## Results and memories -/

section Results

variable {m : Accessing L Addr Val ε α} {f : α → Accessing L Addr Val ε β} {mem : Addr → Val}

@[simp] lemma result_pure (a : α) :
    ((pure a : Accessing L Addr Val ε α) mem).result = .ok a := rfl

@[simp] lemma result_exit_ne_ok (e : ε) (a : α) :
    ((exit e : Accessing L Addr Val ε α) mem).result ≠ .ok a := by
  intro h
  cases h

/-- The first part succeeds, and the second goes on with its value and its memory. -/
lemma bind_of_ok {a : α} (h : (m mem).result = .ok a) :
    ((m >>= f) mem).result = (f a (m mem).mem).result ∧
      ((m >>= f) mem).mem = (f a (m mem).mem).mem := by
  change (Accessing.bind m f mem).result = _ ∧ (Accessing.bind m f mem).mem = _
  unfold Accessing.bind
  cases hrun : m mem with
  | mk result mem' trace =>
    rw [hrun] at h
    subst h
    exact ⟨rfl, rfl⟩

lemma trace_bind_of_ok {a : α} (h : (m mem).result = .ok a) :
    ((m >>= f) mem).trace = (m mem).trace ++ (f a (m mem).mem).trace := by
  change (Accessing.bind m f mem).trace = _
  unfold Accessing.bind
  cases hrun : m mem with
  | mk result mem' trace =>
    rw [hrun] at h
    subst h
    rfl

/-- The first part leaves early. -/
lemma bind_of_error {e : ε} (h : (m mem).result = .error e) :
    ((m >>= f) mem).result = .error e ∧ ((m >>= f) mem).mem = (m mem).mem := by
  change (Accessing.bind m f mem).result = _ ∧ (Accessing.bind m f mem).mem = _
  unfold Accessing.bind
  cases hrun : m mem with
  | mk result mem' trace =>
    rw [hrun] at h
    subst h
    exact ⟨rfl, rfl⟩

end Results

/-- **The rule for `scan`.**  `I k` holds of the memory before round `k`, if all rounds before it
had no answer.  Then either no round has one, or the scan ends as the first round does that has an
answer or leaves. -/
theorem scan_cases {body : ℕ → Accessing L Addr Val ε (Option β)} {I : ℕ → (Addr → Val) → Prop}
    (left : ℕ) : ∀ (i : ℕ) {mem : Addr → Val}, I i mem →
    (∀ k mem, i ≤ k → k < i + left → I k mem → (body k mem).result = .ok none →
      I (k + 1) (body k mem).mem) →
    ((scan body left i mem).result = .ok none ∧ I (i + left) (scan body left i mem).mem) ∨
      ∃ k mem', i ≤ k ∧ k < i + left ∧ I k mem' ∧ (body k mem').result ≠ .ok none ∧
        (scan body left i mem).result = (body k mem').result ∧
        (scan body left i mem).mem = (body k mem').mem := by
  induction left with
  | zero => exact fun i mem h _ => .inl ⟨rfl, h⟩
  | succ left ih =>
    intro i mem h hround
    have hfirst := hround i mem (Nat.le_refl i) (by omega) h
    cases hresult : (body i mem).result with
    | error e =>
      obtain ⟨hr, hm⟩ : (scan body (left + 1) i mem).result = .error e ∧
          (scan body (left + 1) i mem).mem = (body i mem).mem := bind_of_error hresult
      refine .inr ⟨i, mem, Nat.le_refl i, by omega, h, ?_, hr.trans hresult.symm, hm⟩
      rw [hresult]
      exact fun hc => by cases hc
    | ok answer =>
      cases answer with
      | some b =>
        obtain ⟨hr, hm⟩ : (scan body (left + 1) i mem).result = .ok (some b) ∧
            (scan body (left + 1) i mem).mem = (body i mem).mem := bind_of_ok hresult
        refine .inr ⟨i, mem, Nat.le_refl i, by omega, h, ?_, hr.trans hresult.symm, hm⟩
        rw [hresult]
        exact fun hc => by cases hc
      | none =>
        obtain ⟨hr, hm⟩ : (scan body (left + 1) i mem).result
              = (scan body left (i + 1) (body i mem).mem).result ∧
            (scan body (left + 1) i mem).mem
              = (scan body left (i + 1) (body i mem).mem).mem := bind_of_ok hresult
        rw [hr, hm]
        rcases ih (i + 1) (hfirst hresult) fun k mem' hk hlt =>
            hround k mem' (by omega) (by omega) with
          hall | ⟨k, mem', hk, hlt, hrest⟩
        · rw [show i + (left + 1) = i + 1 + left by omega]
          exact .inl hall
        · exact .inr ⟨k, mem', by omega, by omega, hrest⟩

/-! ## Confinement -/

/-- All accesses that `m` makes are permitted by `R`. -/
def Confined (R : L → Addr → Prop) (m : Accessing L Addr Val ε α) : Prop :=
  ∀ mem, ∀ a ∈ (m mem).trace, R a.via a.addr

section Rules

variable {R : L → Addr → Prop}

lemma Confined.pure (a : α) : Confined R (pure a : Accessing L Addr Val ε α) := by
  intro mem x hx
  cases hx

lemma Confined.exit (e : ε) : Confined R (exit e : Accessing L Addr Val ε α) := by
  intro mem x hx
  cases hx

lemma Confined.load {via : L} {a : Addr} (h : R via a) :
    Confined R (load via a : Accessing L Addr Val ε Val) := by
  intro mem x hx
  rw [List.mem_singleton.mp hx]
  exact h

lemma Confined.store [DecidableEq Addr] {via : L} {a : Addr} (v : Val) (h : R via a) :
    Confined R (store via a v : Accessing L Addr Val ε Unit) := by
  intro mem x hx
  rw [List.mem_singleton.mp hx]
  exact h

lemma Confined.bind {m : Accessing L Addr Val ε α} {f : α → Accessing L Addr Val ε β}
    (hm : Confined R m) (hf : ∀ a, Confined R (f a)) : Confined R (m >>= f) := by
  intro mem x hx
  change x ∈ (Accessing.bind m f mem).trace at hx
  have hfirst := hm mem
  unfold Accessing.bind at hx
  cases hrun : m mem with
  | mk result mem' trace =>
    rw [hrun] at hx hfirst
    cases result with
    | error e => exact hfirst x hx
    | ok a =>
      rcases List.mem_append.mp hx with h | h
      · exact hfirst x h
      · exact hf a mem' x h

lemma Confined.map {m : Accessing L Addr Val ε α} (f : α → β) (hm : Confined R m) :
    Confined R (f <$> m) :=
  .bind hm fun a => .pure (f a)

lemma Confined.ite {p : Prop} [Decidable p] {m n : Accessing L Addr Val ε α}
    (hm : p → Confined R m) (hn : ¬ p → Confined R n) : Confined R (if p then m else n) := by
  split_ifs with h
  · exact hm h
  · exact hn h

/-- A check that leaves when it fails, followed by something confined. -/
lemma Confined.guard {p : Prop} [Decidable p] {e : ε} {m : Accessing L Addr Val ε α}
    (hm : p → Confined R m) : Confined R (if ¬ p then Accessing.exit e else m) :=
  .ite (fun _ => .exit e) fun h => hm (not_not.mp h)

lemma Confined.scan {body : ℕ → Accessing L Addr Val ε (Option β)} (left : ℕ) : ∀ (i : ℕ),
    (∀ k, i ≤ k → k < i + left → Confined R (body k)) → Confined R (scan body left i) := by
  induction left with
  | zero =>
    intro i _
    exact .pure none
  | succ left ih =>
    intro i h
    refine .bind (h i (Nat.le_refl i) (by omega)) fun answer => ?_
    cases answer with
    | some b => exact .pure (some b)
    | none => exact ih (i + 1) fun k hk hlt => h k (by omega) (by omega)

end Rules

/-! ## Programs that end -/

/-- Begun with the memory `mem`, `m` only makes accesses that `R` permits, and it ends with a value
and a memory of which `Q` holds. -/
structure Ends (R : L → Addr → Prop) (m : Accessing L Addr Val ε α) (mem : Addr → Val)
    (Q : α → (Addr → Val) → Prop) : Prop where
  permitted : ∀ a ∈ (m mem).trace, R a.via a.addr
  result : ∃ a, (m mem).result = .ok a ∧ Q a (m mem).mem

section EndsRules

variable {R : L → Addr → Prop} {mem : Addr → Val}

lemma Ends.pure {a : α} {Q : α → (Addr → Val) → Prop} (h : Q a mem) :
    Ends R (pure a : Accessing L Addr Val ε α) mem Q :=
  ⟨fun _ hx => (List.not_mem_nil hx).elim, a, rfl, h⟩

lemma Ends.load {via : L} {a : Addr} {Q : Val → (Addr → Val) → Prop} (ha : R via a)
    (h : Q (mem a) mem) : Ends R (load via a : Accessing L Addr Val ε Val) mem Q :=
  ⟨Confined.load ha mem, mem a, rfl, h⟩

lemma Ends.store [DecidableEq Addr] {via : L} {a : Addr} {v : Val}
    {Q : Unit → (Addr → Val) → Prop} (ha : R via a) (h : Q () (Function.update mem a v)) :
    Ends R (store via a v : Accessing L Addr Val ε Unit) mem Q :=
  ⟨Confined.store v ha mem, (), rfl, h⟩

lemma Ends.mono {m : Accessing L Addr Val ε α} {P Q : α → (Addr → Val) → Prop}
    (h : Ends R m mem P) (hPQ : ∀ a mem', P a mem' → Q a mem') : Ends R m mem Q := by
  obtain ⟨hpermitted, a, ha, hP⟩ := h
  exact ⟨hpermitted, a, ha, hPQ a _ hP⟩

/-- Permitting more accesses. -/
lemma Ends.permit {R' : L → Addr → Prop} {m : Accessing L Addr Val ε α}
    {Q : α → (Addr → Val) → Prop} (h : Ends R m mem Q) (hR : ∀ via a, R via a → R' via a) :
    Ends R' m mem Q :=
  ⟨fun x hx => hR x.via x.addr (h.permitted x hx), h.result⟩

lemma Ends.bind {m : Accessing L Addr Val ε α} {f : α → Accessing L Addr Val ε β}
    {Q : β → (Addr → Val) → Prop} (h : Ends R m mem fun a mem' => Ends R (f a) mem' Q) :
    Ends R (m >>= f) mem Q := by
  obtain ⟨hpermitted, a, ha, hpermitted', b, hb, hQ⟩ := h
  obtain ⟨hresult, hmem⟩ := bind_of_ok (f := f) ha
  refine ⟨fun x hx => ?_, b, by rw [hresult, hb], by rw [hmem]; exact hQ⟩
  rw [trace_bind_of_ok ha] at hx
  rcases List.mem_append.mp hx with hx | hx
  · exact hpermitted x hx
  · exact hpermitted' x hx

/-- A branch that is simulated by a branch on the same condition. -/
lemma Ends.ite {A : Type} {S : A → α → (Addr → Val) → Prop} {p : Prop} [Decidable p]
    {m n : Accessing L Addr Val ε α} {a b : A} (hm : p → Ends R m mem (S a))
    (hn : ¬ p → Ends R n mem (S b)) : Ends R (if p then m else n) mem (S (if p then a else b)) := by
  split_ifs with h
  · exact hm h
  · exact hn h

/-- **A loop over memory** in which every round does to the memory what `g` does. -/
lemma Ends.forM {f : β → Accessing L Addr Val ε Unit} {g : (Addr → Val) → β → Addr → Val}
    (l : List β) (hround : ∀ x ∈ l, ∀ mem, Ends R (f x) mem fun _ mem' => mem' = g mem x)
    (mem : Addr → Val) : Ends R (l.forM f) mem fun _ mem' => mem' = l.foldl g mem := by
  induction l generalizing mem with
  | nil => exact .pure rfl
  | cons x l ih =>
    refine .bind ((hround x List.mem_cons_self mem).mono fun _ mem' h => ?_)
    subst h
    exact ih (fun y hy => hround y (List.mem_cons_of_mem x hy)) _

/-- **A loop that is simulated by a fold.**  `S` relates what the fold has so far to what the loop
has, in a value and in memory. -/
lemma Ends.foldlM {σ A : Type} {S : A → σ → (Addr → Val) → Prop}
    {f : σ → β → Accessing L Addr Val ε σ} {g : A → β → A} (l : List β)
    (hround : ∀ x ∈ l, ∀ a s mem, S a s mem → Ends R (f s x) mem (S (g a x))) {a : A} {s : σ}
    (h : S a s mem) : Ends R (l.foldlM f s) mem (S (l.foldl g a)) := by
  induction l generalizing a s mem with
  | nil => exact .pure h
  | cons x l ih =>
    rw [List.foldlM_cons, List.foldl_cons]
    refine .bind ((hround x List.mem_cons_self a s mem h).mono fun s' mem' h' => ?_)
    exact ih (fun y hy => hround y (List.mem_cons_of_mem x hy)) h'

end EndsRules

/-- **Rounds that never answer are all made.**  `T k` is what round `k` accesses. -/
lemma scan_of_unanswered {body : ℕ → Accessing L Addr Val ε (Option β)}
    {T : ℕ → List (Access L Addr)}
    (hbody : ∀ k mem, (body k mem).result = .ok none ∧ (body k mem).trace = T k) (left : ℕ) :
    ∀ (i : ℕ) (mem : Addr → Val), (scan body left i mem).result = .ok none ∧
      (scan body left i mem).trace = (List.range' i left).flatMap T := by
  induction left with
  | zero =>
    intro i mem
    exact ⟨rfl, rfl⟩
  | succ left ih =>
    intro i mem
    obtain ⟨hresult, htrace⟩ := hbody i mem
    cases hround : body i mem with
    | mk result mem' trace =>
      rw [hround] at hresult htrace
      obtain ⟨hresult', htrace'⟩ := ih (i + 1) mem'
      subst hresult htrace
      have hscan : scan body (left + 1) i mem
          = { scan body left (i + 1) mem' with
              trace := T i ++ (scan body left (i + 1) mem').trace } := by
        change Accessing.bind (body i) _ mem = _
        simp only [Accessing.bind, hround]
      rw [hscan]
      exact ⟨hresult', by rw [List.range'_succ, List.flatMap_cons, htrace']⟩

/-! ## Searching the memory -/

/-- The round of a search: read the value at `pos k`, and answer `k` when `found` holds of it. -/
def probe (via : L) (pos : ℕ → Addr) (found : Val → Bool) (k : ℕ) :
    Accessing L Addr Val ε (Option ℕ) := do
  let v ← load via (pos k)
  pure (if found v then some k else none)

/-- **What a search reads.**  Round `k` is reached if and only if nothing was found before it. -/
theorem mem_trace_scan_probe {via : L} {pos : ℕ → Addr} {found : Val → Bool} {mem : Addr → Val}
    {x : Access L Addr} (left : ℕ) : ∀ (i : ℕ),
    x ∈ ((scan (probe via pos found) left i : Accessing L Addr Val ε (Option ℕ)) mem).trace ↔
      ∃ k, i ≤ k ∧ k < i + left ∧ x = ⟨via, .read, pos k⟩ ∧
        ∀ j, i ≤ j → j < k → found (mem (pos j)) = false := by
  induction left with
  | zero =>
    intro i
    refine ⟨fun h => (List.not_mem_nil h).elim, ?_⟩
    rintro ⟨k, hle, hlt, -⟩
    omega
  | succ left ih =>
    intro i
    cases hfound : found (mem (pos i)) with
    | true =>
      -- the search ends with this round
      have htrace : ((scan (probe via pos found) (left + 1) i :
          Accessing L Addr Val ε (Option ℕ)) mem).trace = [⟨via, .read, pos i⟩] := by
        simp [scan, probe, load, Bind.bind, Pure.pure, Accessing.bind, Accessing.pure, hfound]
      rw [htrace, List.mem_singleton]
      constructor
      · rintro rfl
        exact ⟨i, Nat.le_refl i, by omega, rfl, fun j hj hlt => by omega⟩
      · rintro ⟨k, hle, -, rfl, hbefore⟩
        rcases Nat.eq_or_lt_of_le hle with rfl | hlt
        · rfl
        · simp [hbefore i (Nat.le_refl i) hlt] at hfound
    | false =>
      have htrace : ((scan (probe via pos found) (left + 1) i :
          Accessing L Addr Val ε (Option ℕ)) mem).trace = ⟨via, .read, pos i⟩ ::
            ((scan (probe via pos found) left (i + 1) :
              Accessing L Addr Val ε (Option ℕ)) mem).trace := by
        simp [scan, probe, load, Bind.bind, Pure.pure, Accessing.bind, Accessing.pure, hfound]
      rw [htrace, List.mem_cons, ih]
      constructor
      · rintro (rfl | ⟨k, hle, hlt, rfl, hbefore⟩)
        · exact ⟨i, Nat.le_refl i, by omega, rfl, fun j hj hlt => by omega⟩
        · refine ⟨k, by omega, by omega, rfl, fun j hj hjk => ?_⟩
          rcases Nat.eq_or_lt_of_le hj with rfl | h
          · exact hfound
          · exact hbefore j h hjk
      · rintro ⟨k, hle, hlt, rfl, hbefore⟩
        rcases Nat.eq_or_lt_of_le hle with rfl | h
        · exact .inl rfl
        · exact .inr ⟨k, h, by omega, rfl, fun j hj => hbefore j (by omega)⟩

end Accessing

end Masika
