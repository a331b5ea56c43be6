import Mathlib.Algebra.Order.BigOperators.Group.List
import Mathlib.Algebra.Ring.Nat
import Mathlib.Order.Interval.Finset.Nat

/-!
# Lists of extents

An *extent* is a block of consecutive indices.  A list of extents that are `Apart` describes who
owns what of a linear resource; `covered` is what is owned by anybody.  The two operations on such a
list are adding an extent that is disjoint from what is covered, and giving one back; for both, the
covered set and the total size change in the way one expects, which is where `Apart` is needed
(`Apart.erase`, `card_covered`).
-/

namespace Masika

/-- `count` consecutive indices from `start` on. -/
structure Extent where
  start : ℕ
  count : ℕ
deriving DecidableEq, Repr

namespace Extent

/-- The numbers in the range. -/
def frames (e : Extent) : Finset ℕ := Finset.Ico e.start (e.start + e.count)

lemma mem_frames {e : Extent} {f : ℕ} : f ∈ e.frames ↔ e.start ≤ f ∧ f < e.start + e.count :=
  Finset.mem_Ico

lemma card_frames (e : Extent) : e.frames.card = e.count := by
  rw [frames, Nat.card_Ico]
  omega

/-- Extents that are not empty have no index in common if one of them ends before the other. -/
lemma disjoint_frames_iff {e e' : Extent} (he : 0 < e.count) (he' : 0 < e'.count) :
    Disjoint e.frames e'.frames ↔
      e.start + e.count ≤ e'.start ∨ e'.start + e'.count ≤ e.start := by
  rw [Finset.disjoint_left]
  simp only [mem_frames, not_and, not_lt]
  constructor
  · intro h
    have hstart := h (a := e.start)
    have hstart' := h (a := e'.start)
    omega
  · intro h x hx hx'
    omega

lemma start_ne_of_disjoint {e e' : Extent} (he : 0 < e.count) (he' : 0 < e'.count)
    (h : Disjoint e.frames e'.frames) : e.start ≠ e'.start := by
  have := (disjoint_frames_iff he he').mp h
  omega

/-- No index belongs to two extents of the list. -/
def Apart (L : List Extent) : Prop := L.Pairwise fun e e' => Disjoint e.frames e'.frames

/-- The indices that belong to an extent of the list. -/
def covered : List Extent → Finset ℕ
  | [] => ∅
  | e :: L => e.frames ∪ covered L

/-- The sizes of all extents together. -/
def totalCount (L : List Extent) : ℕ := (L.map Extent.count).sum

lemma mem_covered {L : List Extent} {f : ℕ} : f ∈ covered L ↔ ∃ e ∈ L, f ∈ e.frames := by
  induction L with
  | nil => simp [covered]
  | cons e L ih => simp [covered, ih]

lemma disjoint_covered {s : Finset ℕ} {L : List Extent} :
    Disjoint s (covered L) ↔ ∀ e ∈ L, Disjoint s e.frames := by
  induction L with
  | nil => simp [covered]
  | cons e L ih => simp [covered, Finset.disjoint_union_right, ih]

lemma apart_cons {e : Extent} {L : List Extent} :
    Apart (e :: L) ↔ Disjoint e.frames (covered L) ∧ Apart L := by
  rw [Apart, List.pairwise_cons, disjoint_covered]
  exact Iff.rfl

/-- **Extents that are apart add up.** -/
theorem card_covered {L : List Extent} (h : Apart L) : (covered L).card = totalCount L := by
  induction L with
  | nil => rfl
  | cons e L ih =>
    obtain ⟨hdisj, hL⟩ := apart_cons.mp h
    rw [covered, Finset.card_union_of_disjoint hdisj, card_frames, ih hL]
    rfl

/-- Extents that are apart have room for no more than there is. -/
lemma Apart.totalCount_le {L : List Extent} (h : Apart L) {s : Finset ℕ}
    (hsub : ∀ e ∈ L, e.frames ⊆ s) : totalCount L ≤ s.card := by
  rw [← card_covered h]
  refine Finset.card_le_card fun x hx => ?_
  obtain ⟨e, he, hx⟩ := mem_covered.mp hx
  exact hsub e he hx

lemma Apart.disjoint {L : List Extent} (h : Apart L) {e e' : Extent} (he : e ∈ L) (he' : e' ∈ L)
    (hne : e ≠ e') : Disjoint e.frames e'.frames :=
  have : Std.Symm fun e e' : Extent => Disjoint e.frames e'.frames := ⟨fun _ _ hd => hd.symm⟩
  List.Pairwise.forall h he he' hne

lemma Apart.perm {L L' : List Extent} (h : Apart L) (hp : L.Perm L') : Apart L' :=
  List.Pairwise.perm h hp fun hd => hd.symm

lemma covered_perm {L L' : List Extent} (hp : L.Perm L') : covered L = covered L' := by
  ext f
  simp only [mem_covered, hp.mem_iff]

/-- Giving an extent back: the others stay apart, and cover everything but the extent. -/
theorem Apart.erase {L : List Extent} (h : Apart L) {e : Extent} (he : e ∈ L) :
    Apart (L.erase e) ∧ covered (L.erase e) = covered L \ e.frames ∧
      totalCount (L.erase e) + e.count = totalCount L := by
  have hp : L.Perm (e :: L.erase e) := List.perm_cons_erase he
  obtain ⟨hdisj, hrest⟩ := apart_cons.mp (h.perm hp)
  refine ⟨hrest, ?_, ?_⟩
  · rw [covered_perm hp, covered, Finset.union_sdiff_left, Finset.sdiff_eq_self_of_disjoint]
    exact hdisj.symm
  · rw [totalCount, totalCount, (hp.map Extent.count).sum_eq, List.map_cons, List.sum_cons]
    omega

end Extent

end Masika
