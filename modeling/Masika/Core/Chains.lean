import Mathlib.Data.List.Nodup
import Mathlib.Logic.Function.Basic
import Mathlib.Tactic.Common

/-!
# Singly linked lists

Cells of type `α` are linked by pointers.  A pointer is kept in a *slot*: the head `Sum.inl i` of
list number `i`, or the link `Sum.inr a` inside the cell `a`.  The contents of the slots are a
function `link`, and a list ends at `null`.

`Chain link null s xs` says that the slot `s` is the beginning of a list of the cells `xs`.  There
is at most one such list (`Chain.unique`), and it depends on the slots on the way only
(`Chain.congr`). The operations are pushing a cell (`Chain.push`), taking one out in the middle
(`Chain.unlink`), and searching for the first cell with some property (`searchChain`).
-/

namespace Masika

variable {ι α : Type*}

/-- The cells from slot `s` on are `xs`. -/
def Chain (link : ι ⊕ α → α) (null : α) : ι ⊕ α → List α → Prop
  | s, [] => link s = null
  | s, x :: xs => link s = x ∧ x ≠ null ∧ Chain link null (.inr x) xs

instance Chain.decidable [DecidableEq α] (link : ι ⊕ α → α) (null : α) :
    ∀ s xs, Decidable (Chain link null s xs)
  | s, [] => inferInstanceAs (Decidable (link s = null))
  | s, x :: xs =>
    have := Chain.decidable link null (.inr x) xs
    inferInstanceAs (Decidable (link s = x ∧ x ≠ null ∧ Chain link null (.inr x) xs))

/-- The slot that points behind the cells `xs`, when `s` points before them. -/
def slotAfter (s : ι ⊕ α) : List α → ι ⊕ α
  | [] => s
  | x :: xs => slotAfter (.inr x) xs

lemma slotAfter_mem (s : ι ⊕ α) (xs : List α) :
    slotAfter s xs = s ∨ ∃ x ∈ xs, slotAfter s xs = .inr x := by
  induction xs generalizing s with
  | nil => exact .inl rfl
  | cons x xs ih =>
    rcases ih (.inr x) with h | ⟨y, hy, h⟩
    · exact .inr ⟨x, List.mem_cons_self, h⟩
    · exact .inr ⟨y, List.mem_cons_of_mem x hy, h⟩

namespace Chain

variable {link link' : ι ⊕ α → α} {null : α} {s : ι ⊕ α} {xs ys : List α}

/-- **Chains depend on their own slots only.** -/
lemma congr (h : Chain link null s xs) (hs : link' s = link s)
    (hxs : ∀ x ∈ xs, link' (.inr x) = link (.inr x)) : Chain link' null s xs := by
  induction xs generalizing s with
  | nil => exact hs.trans h
  | cons x xs ih =>
    exact ⟨hs.trans h.1, h.2.1, ih h.2.2 (hxs x List.mem_cons_self)
      fun y hy => hxs y (List.mem_cons_of_mem x hy)⟩

/-- **A slot is the beginning of one list.** -/
lemma unique (h : Chain link null s xs) (h' : Chain link null s ys) : xs = ys := by
  induction xs generalizing s ys with
  | nil =>
    cases ys with
    | nil => rfl
    | cons y ys => exact absurd (h'.1.symm.trans h) h'.2.1
  | cons x xs ih =>
    cases ys with
    | nil => exact absurd (h.1.symm.trans h') h.2.1
    | cons y ys =>
      obtain rfl : x = y := h.1.symm.trans h'.1
      rw [ih h.2.2 h'.2.2]

lemma ne_null (h : Chain link null s xs) {x : α} (hx : x ∈ xs) : x ≠ null := by
  induction xs generalizing s with
  | nil => cases hx
  | cons y xs ih =>
    rcases List.mem_cons.mp hx with rfl | hx
    · exact h.2.1
    · exact ih h.2.2 hx

/-- Every cell is pointed to. -/
lemma exists_link (h : Chain link null s xs) {x : α} (hx : x ∈ xs) : ∃ t, link t = x := by
  induction xs generalizing s with
  | nil => cases hx
  | cons y xs ih =>
    rcases List.mem_cons.mp hx with rfl | hx
    · exact ⟨s, h.1⟩
    · exact ih h.2.2 hx

/-- The rest of a list, behind some of its cells. -/
lemma drop (h : Chain link null s (xs ++ ys)) : Chain link null (slotAfter s xs) ys := by
  induction xs generalizing s with
  | nil => exact h
  | cons x xs ih => exact ih h.2.2

/-- **A list that ends has no cell twice.** -/
lemma nodup (h : Chain link null s xs) : xs.Nodup := by
  induction xs generalizing s with
  | nil => exact List.nodup_nil
  | cons x xs ih =>
    refine List.nodup_cons.mpr ⟨fun hx => ?_, ih h.2.2⟩
    obtain ⟨pre, post, rfl⟩ := List.append_of_mem hx
    -- the cells behind both are the same
    have hlength := congrArg List.length (h.2.2.unique h.2.2.drop.2.2)
    rw [List.length_append, List.length_cons] at hlength
    omega

/-- A new cell in front. -/
lemma push (h : Chain link null s xs) {x : α} (hx : x ≠ null) (hlink : link' s = x)
    (hnext : link' (.inr x) = link s) (hxs : ∀ y ∈ xs, link' (.inr y) = link (.inr y)) :
    Chain link' null s (x :: xs) := by
  refine ⟨hlink, hx, ?_⟩
  cases xs with
  | nil => exact hnext.trans h
  | cons y ys =>
    exact ⟨hnext.trans h.1, h.2.1, h.2.2.congr (hxs y List.mem_cons_self)
      fun z hz => hxs z (List.mem_cons_of_mem y hz)⟩

/-- **Taking a cell out.**  The slot that pointed to it gets the pointer behind it. -/
lemma unlink {y : α} (h : Chain link null s (xs ++ y :: ys)) (hnodup : (xs ++ y :: ys).Nodup)
    (hs : ∀ x ∈ xs ++ y :: ys, s ≠ .inr x) (hslot : link' (slotAfter s xs) = link (.inr y))
    (hother : ∀ t, t = s ∨ (∃ x ∈ xs ++ ys, t = .inr x) → t ≠ slotAfter s xs →
      link' t = link t) : Chain link' null s (xs ++ ys) := by
  induction xs generalizing s with
  | nil =>
    have hrest : Chain link null (.inr y) ys := h.2.2
    have hkeep : ∀ z ∈ ys, link' (.inr z) = link (.inr z) := fun z hz =>
      hother _ (.inr ⟨z, hz, rfl⟩) (hs z (List.mem_cons_of_mem y hz)).symm
    cases ys with
    | nil => exact hslot.trans hrest
    | cons z zs =>
      exact ⟨hslot.trans hrest.1, hrest.2.1, hrest.2.2.congr (hkeep z List.mem_cons_self)
        fun w hw => hkeep w (List.mem_cons_of_mem z hw)⟩
  | cons x xs ih =>
    obtain ⟨hx, hnodup'⟩ := List.nodup_cons.mp hnodup
    -- the slot that changes is further down
    have hne : s ≠ slotAfter (.inr x) xs := by
      rcases slotAfter_mem (.inr x : ι ⊕ α) xs with heq | ⟨z, hz, heq⟩
      · rw [heq]
        exact hs x List.mem_cons_self
      · rw [heq]
        exact hs z (List.mem_cons_of_mem x (List.mem_append_left _ hz))
    refine ⟨(hother s (.inl rfl) hne).trans h.1, h.2.1, ih h.2.2 hnodup' ?_ hslot ?_⟩
    · rintro z hz heq
      rw [Sum.inr.injEq] at heq
      exact hx (heq ▸ hz)
    · intro t ht
      refine hother t (.inr ?_)
      rcases ht with rfl | ⟨z, hz, rfl⟩
      · exact ⟨x, List.mem_cons_self, rfl⟩
      · exact ⟨z, List.mem_cons_of_mem x hz, rfl⟩

end Chain

/-! ## Searching -/

/-- The first cell from slot `s` on with `p`, and the slot that points to it.  `fuel` bounds the
number of cells that are looked at; `none` when it does not suffice. -/
def searchChain [DecidableEq α] (link : ι ⊕ α → α) (null : α) (p : α → Bool) :
    ℕ → ι ⊕ α → Option (Option ((ι ⊕ α) × α))
  | 0, _ => none
  | fuel + 1, s =>
    if link s = null then some none
    else if p (link s) then some (some (s, link s))
    else searchChain link null p fuel (.inr (link s))

/-- **The search finds what `find?` finds**, in a list that is shorter than the fuel. -/
lemma searchChain_eq [DecidableEq α] {link : ι ⊕ α → α} {null : α} {p : α → Bool} {fuel : ℕ}
    {s : ι ⊕ α} {xs : List α} (h : Chain link null s xs) (hfuel : xs.length < fuel) :
    (searchChain link null p fuel s = some none ∧ xs.find? p = none) ∨
      ∃ pre y post, xs = pre ++ y :: post ∧ xs.find? p = some y ∧
        searchChain link null p fuel s = some (some (slotAfter s pre, y)) := by
  induction xs generalizing s fuel with
  | nil =>
    cases fuel with
    | zero => exact absurd hfuel (Nat.not_lt_zero _)
    | succ fuel =>
      have hend : link s = null := h
      exact .inl ⟨by rw [searchChain, if_pos hend], rfl⟩
  | cons x xs ih =>
    cases fuel with
    | zero => exact absurd hfuel (Nat.not_lt_zero _)
    | succ fuel =>
      obtain ⟨hlink, hx, hrest⟩ := h
      rw [searchChain, hlink, if_neg hx]
      cases hp : p x with
      | true =>
        exact .inr ⟨[], x, xs, rfl, List.find?_cons_of_pos hp, if_pos rfl⟩
      | false =>
        rw [if_neg Bool.false_ne_true, List.find?_cons_of_neg (by simp [hp])]
        rcases ih hrest (Nat.lt_of_succ_lt_succ hfuel) with
          h | ⟨pre, y, post, rfl, hfind, hsearch⟩
        · exact .inl h
        · exact .inr ⟨x :: pre, y, post, rfl, hfind, hsearch⟩

lemma searchChain_head [DecidableEq α] {link : ι ⊕ α → α} {null : α} {p : α → Bool} {fuel : ℕ}
    {s : ι ⊕ α} {x : α} {xs : List α} (h : Chain link null s (x :: xs)) (hp : p x = true)
    (hfuel : 0 < fuel) : searchChain link null p fuel s = some (some (s, x)) := by
  cases fuel with
  | zero => exact absurd hfuel (Nat.lt_irrefl 0)
  | succ fuel => rw [searchChain, h.1, if_neg h.2.1, if_pos hp]

/-- Nothing is found in a list in which nothing has the property. -/
lemma searchChain_of_chain [DecidableEq α] {link : ι ⊕ α → α} {null : α} {p : α → Bool} {fuel : ℕ}
    {s : ι ⊕ α} {xs : List α} (h : Chain link null s xs) (hfuel : xs.length < fuel)
    (hall : ∀ x ∈ xs, p x = false) : searchChain link null p fuel s = some none := by
  rcases searchChain_eq (p := p) h hfuel with ⟨hsearch, -⟩ | ⟨pre, y, post, rfl, hfind, -⟩
  · exact hsearch
  · have hy := hall y (by simp)
    rw [List.find?_some hfind] at hy
    cases hy

/-- **A search that finds nothing** has seen a list that ends. -/
lemma chain_of_searchChain [DecidableEq α] {link : ι ⊕ α → α} {null : α} {p : α → Bool} (fuel : ℕ) :
    ∀ {s : ι ⊕ α}, searchChain link null p fuel s = some none →
      ∃ xs, Chain link null s xs ∧ xs.length < fuel ∧ ∀ x ∈ xs, p x = false := by
  induction fuel with
  | zero => exact fun {s} h => nomatch h
  | succ fuel ih =>
    intro s h
    rw [searchChain] at h
    split_ifs at h with hend hp
    · exact ⟨[], hend, Nat.succ_pos fuel, fun x hx => absurd hx List.not_mem_nil⟩
    · cases h
    · obtain ⟨xs, hxs, hlength, hall⟩ := ih h
      refine ⟨link s :: xs, ⟨rfl, hend, hxs⟩, Nat.succ_lt_succ hlength, fun x hx => ?_⟩
      rcases List.mem_cons.mp hx with rfl | hx
      · exact Bool.eq_false_iff.mpr hp
      · exact hall x hx

/-- What is found is a cell. -/
lemma searchChain_ne_null [DecidableEq α] {link : ι ⊕ α → α} {null : α} {p : α → Bool} (fuel : ℕ) :
    ∀ {s t : ι ⊕ α} {x : α}, searchChain link null p fuel s = some (some (t, x)) → x ≠ null := by
  induction fuel with
  | zero => exact fun {s t x} h => nomatch h
  | succ fuel ih =>
    intro s t x h
    rw [searchChain] at h
    split_ifs at h with hend hp
    · cases h
    · cases h
      exact hend
    · exact ih h

end Masika
