import Mathlib.Data.List.Induction
import Mathlib.Data.Set.Basic
import Mathlib.Logic.Function.Basic
import Mathlib.Order.Basic
import Mathlib.Tactic.TypeStar

/-!
# Radix trees of tables in a flat memory

A radix tree is laid out in a word memory `ℕ → W`: a *table* is a block of slots, one for each
index, and a word found in a slot either names the table below it (`decode w = some t`) or ends
the path.  Several trees may live in the same memory, one for each root.

What makes such a memory behave like a set of trees is a separation invariant, `Forest`: no table
is reached along two different paths, whatever the roots and the lengths of the paths.  It is kept
by the two ways in which a mapper writes:

* overwriting a slot of a bottom table (`Forest.write`), which moves no table and changes the word
  of exactly one path (`leafWord_write`);
* linking a fresh table, all zero, under an empty slot (`Forest.link`), which changes no bottom word
  at all (`leafWord_link`): the new slots are zero, and a path that had no bottom table counts as
  holding zero.

`tableAt_congr` carries both: a walk depends only on the slots it reads.
-/

namespace Masika

/-- How tables lie in memory and how words are read.  The laws say that slots are distinct inside
a table, that aligned tables do not overlap, and that the zero word ends a path. -/
structure RadixFormat (I W : Type*) where
  /-- the address of slot `i` of the table at `t` -/
  slot : ℕ → I → ℕ
  /-- where a table may start -/
  Aligned : ℕ → Prop
  /-- address `x` is a slot of the table at `t` -/
  inTable : ℕ → ℕ → Bool
  /-- the table a word refers to, if any -/
  decode : W → Option ℕ
  zero : W
  slot_inTable : ∀ t i, inTable t (slot t i) = true
  exists_slot : ∀ t x, inTable t x = true → ∃ i, x = slot t i
  slot_inj : ∀ t i j, slot t i = slot t j → i = j
  apart : ∀ t t' x, Aligned t → Aligned t' → inTable t x = true → inTable t' x = true → t = t'
  decode_zero : decode zero = none

namespace RadixFormat

variable {I W : Type*} (F : RadixFormat I W)

/-- Slots of aligned tables coincide only when table and index do. -/
lemma slot_eq {t t' : ℕ} {i j : I} (ht : F.Aligned t) (ht' : F.Aligned t')
    (h : F.slot t i = F.slot t' j) : t = t' ∧ i = j := by
  have hx : F.inTable t' (F.slot t i) = true := by rw [h]; exact F.slot_inTable t' j
  have htt : t = t' := F.apart t t' _ ht ht' (F.slot_inTable t i) hx
  subst htt
  exact ⟨rfl, F.slot_inj t i j h⟩

/-! ## Walking -/

/-- The table reached from `t` along a path of indices. -/
def tableAt (mem : ℕ → W) : ℕ → List I → Option ℕ
  | t, [] => some t
  | t, i :: π => (F.decode (mem (F.slot t i))).bind fun t' => tableAt mem t' π

/-- The word at the end of a path: index `i` of the table reached along `π`, or zero when there is
no such table. -/
def leafWord (mem : ℕ → W) (r : ℕ) (π : List I) (i : I) : W :=
  match F.tableAt mem r π with
  | none => F.zero
  | some t => mem (F.slot t i)

lemma tableAt_append (mem : ℕ → W) (π ρ : List I) (r : ℕ) :
    F.tableAt mem r (π ++ ρ) = (F.tableAt mem r π).bind fun t => F.tableAt mem t ρ := by
  induction π generalizing r with
  | nil => rfl
  | cons i π ih =>
    simp only [List.cons_append, tableAt]
    cases F.decode (mem (F.slot r i)) with
    | none => rfl
    | some t => simp only [Option.bind_some, ih]

/-- Walking one step further reads one more slot. -/
lemma tableAt_snoc (mem : ℕ → W) (r : ℕ) (π : List I) (i : I) :
    F.tableAt mem r (π ++ [i])
      = (F.tableAt mem r π).bind fun t => F.decode (mem (F.slot t i)) := by
  rw [tableAt_append]
  congr 1
  funext t
  simp [tableAt]

lemma leafWord_of_tableAt {mem : ℕ → W} {r t : ℕ} {π : List I} (h : F.tableAt mem r π = some t)
    (i : I) : F.leafWord mem r π i = mem (F.slot t i) := by
  rw [leafWord, h]

lemma leafWord_of_none {mem : ℕ → W} {r : ℕ} {π : List I} (h : F.tableAt mem r π = none) (i : I) :
    F.leafWord mem r π i = F.zero := by
  rw [leafWord, h]

/-- **A walk depends only on the slots it reads.** -/
lemma tableAt_congr {mem mem' : ℕ → W} {r : ℕ} {π : List I}
    (h : ∀ ρ i t, ρ ++ [i] <+: π → F.tableAt mem r ρ = some t →
      mem' (F.slot t i) = mem (F.slot t i)) :
    F.tableAt mem' r π = F.tableAt mem r π := by
  induction π using List.reverseRecOn with
  | nil => rfl
  | append_singleton π i ih =>
    have hπ : F.tableAt mem' r π = F.tableAt mem r π :=
      ih fun ρ j t hρ ht => h ρ j t (hρ.trans (List.prefix_append π [i])) ht
    rw [tableAt_snoc, tableAt_snoc, hπ]
    cases ht : F.tableAt mem r π with
    | none => rfl
    | some t =>
      rw [Option.bind_some, Option.bind_some, h π i t List.prefix_rfl ht]

/-- The same for the word at the end. -/
lemma leafWord_congr {mem mem' : ℕ → W} {r : ℕ} {π : List I}
    (h : ∀ ρ t i, ρ <+: π → F.tableAt mem r ρ = some t → mem' (F.slot t i) = mem (F.slot t i))
    (l : I) : F.leafWord mem' r π l = F.leafWord mem r π l := by
  have htab : F.tableAt mem' r π = F.tableAt mem r π :=
    F.tableAt_congr fun ρ i t hρ ht => h ρ t i ((List.prefix_append ρ [i]).trans hρ) ht
  cases ht : F.tableAt mem r π with
  | none => rw [F.leafWord_of_none ht, F.leafWord_of_none (htab.trans ht)]
  | some t =>
    rw [F.leafWord_of_tableAt ht, F.leafWord_of_tableAt (htab.trans ht)]
    exact h π t l List.prefix_rfl ht

/-- The word at the end, one step at a time. -/
lemma leafWord_cons (mem : ℕ → W) (r : ℕ) (i : I) (π : List I) (l : I) :
    F.leafWord mem r (i :: π) l = match F.decode (mem (F.slot r i)) with
      | none => F.zero
      | some t => F.leafWord mem t π l := by
  simp only [leafWord, tableAt]
  cases F.decode (mem (F.slot r i)) <;> rfl

/-- Two readings of the same layout walk alike where they read every word met alike. -/
lemma tableAt_congr_format {G : RadixFormat I W} (hslot : G.slot = F.slot) {mem : ℕ → W} {r : ℕ}
    {π : List I} (h : ∀ ρ i t, ρ ++ [i] <+: π → F.tableAt mem r ρ = some t →
      G.decode (mem (F.slot t i)) = F.decode (mem (F.slot t i))) :
    G.tableAt mem r π = F.tableAt mem r π := by
  induction π using List.reverseRecOn with
  | nil => rfl
  | append_singleton π i ih =>
    have hπ : G.tableAt mem r π = F.tableAt mem r π :=
      ih fun ρ j t hρ ht => h ρ j t (hρ.trans (List.prefix_append π [i])) ht
    rw [tableAt_snoc, tableAt_snoc, hπ, hslot]
    cases ht : F.tableAt mem r π with
    | none => rfl
    | some t =>
      rw [Option.bind_some, Option.bind_some, h π i t List.prefix_rfl ht]

/-! ## The separation invariant -/

/-- The trees below `roots`, down to bottom tables at distance `depth`, are separate: every table
met is one of the `live` ones, none is met twice, and every word above the bottom of the tree of
`r` satisfies `Node r`. -/
structure Forest (Node : ℕ → W → Prop) (depth : ℕ) (roots : Set ℕ) (live : List ℕ) (mem : ℕ → W) :
    Prop where
  aligned : ∀ t ∈ live, F.Aligned t
  table_live : ∀ r ∈ roots, ∀ π t, π.length ≤ depth → F.tableAt mem r π = some t → t ∈ live
  unshared : ∀ r ∈ roots, ∀ r' ∈ roots, ∀ π π' t, π.length ≤ depth → π'.length ≤ depth →
    F.tableAt mem r π = some t → F.tableAt mem r' π' = some t → r = r' ∧ π = π'
  node : ∀ r ∈ roots, ∀ π t i, π.length < depth → F.tableAt mem r π = some t →
    Node r (mem (F.slot t i))

variable {F} {Node : ℕ → W → Prop} {depth : ℕ} {roots : Set ℕ} {live : List ℕ} {mem : ℕ → W}

/-- Roots that are all zero form a forest of bare roots. -/
theorem Forest.init (hal : ∀ t ∈ live, F.Aligned t) (hlive : ∀ r ∈ roots, r ∈ live)
    (hzero : ∀ r ∈ roots, ∀ i, mem (F.slot r i) = F.zero) (hnode : ∀ r ∈ roots, Node r F.zero) :
    F.Forest Node depth roots live mem := by
  have hbare : ∀ r ∈ roots, ∀ π t, F.tableAt mem r π = some t → π = [] ∧ t = r := by
    intro r hr π t h
    cases π with
    | nil => exact ⟨rfl, (Option.some.inj h).symm⟩
    | cons i π => simp [tableAt, hzero r hr, F.decode_zero] at h
  refine ⟨hal, ?_, ?_, ?_⟩
  · intro r hr π t _ h
    rw [(hbare r hr π t h).2]
    exact hlive r hr
  · intro r hr r' hr' π π' t _ _ h h'
    obtain ⟨hπ, ht⟩ := hbare r hr π t h
    obtain ⟨hπ', ht'⟩ := hbare r' hr' π' t h'
    exact ⟨by rw [← ht, ← ht'], by rw [hπ, hπ']⟩
  · intro r hr π t i _ h
    rw [(hbare r hr π t h).2, hzero r hr]
    exact hnode r hr

/-! ## Memories that agree on the tables -/

/-- Agreement on the live tables is enough for the facts of this section. -/
lemma Forest.agree_of_live {mem' : ℕ → W} (hF : F.Forest Node depth roots live mem)
    (h : ∀ t ∈ live, ∀ i, mem' (F.slot t i) = mem (F.slot t i)) :
    ∀ r ∈ roots, ∀ π t, π.length ≤ depth → F.tableAt mem r π = some t →
      ∀ i, mem' (F.slot t i) = mem (F.slot t i) :=
  fun r hr π t hπ ht => h t (hF.table_live r hr π t hπ ht)

section Agree

variable {mem' : ℕ → W}
  (hagree : ∀ r ∈ roots, ∀ π t, π.length ≤ depth → F.tableAt mem r π = some t →
    ∀ i, mem' (F.slot t i) = mem (F.slot t i))

include hagree

lemma tableAt_of_agree {r : ℕ} (hr : r ∈ roots) {π : List I} (hlen : π.length ≤ depth) :
    F.tableAt mem' r π = F.tableAt mem r π := by
  apply tableAt_congr
  intro ρ i t hρ ht
  refine hagree r hr ρ t ?_ ht i
  have := hρ.length_le
  simp only [List.length_append, List.length_singleton] at this
  omega

lemma leafWord_of_agree {r : ℕ} (hr : r ∈ roots) {π : List I} (hlen : π.length ≤ depth) (i : I) :
    F.leafWord mem' r π i = F.leafWord mem r π i :=
  F.leafWord_congr (fun ρ t i hρ ht => hagree r hr ρ t (hρ.length_le.trans hlen) ht i) i

/-- Words outside of the tables do not matter. -/
theorem Forest.of_agree (hF : F.Forest Node depth roots live mem) :
    F.Forest Node depth roots live mem' := by
  refine ⟨hF.aligned, ?_, ?_, ?_⟩
  · intro r hr π t hlen ht
    rw [tableAt_of_agree hagree hr hlen] at ht
    exact hF.table_live r hr π t hlen ht
  · intro r hr r' hr' π π' t hlen hlen' ht ht'
    rw [tableAt_of_agree hagree hr hlen] at ht
    rw [tableAt_of_agree hagree hr' hlen'] at ht'
    exact hF.unshared r hr r' hr' π π' t hlen hlen' ht ht'
  · intro r hr π t i hlen ht
    rw [tableAt_of_agree hagree hr hlen.le] at ht
    rw [hagree r hr π t hlen.le ht i]
    exact hF.node r hr π t i hlen ht

end Agree

/-! ## Writing a bottom slot -/

section Write

variable (hF : F.Forest Node depth roots live mem) {r t : ℕ} {π : List I} (hr : r ∈ roots)
  (hlen : π.length = depth) (ht : F.tableAt mem r π = some t) (i : I) (w : W)

include hF hr hlen ht

/-- Overwriting a bottom slot moves no table. -/
lemma tableAt_write {r' : ℕ} (hr' : r' ∈ roots) {π' : List I} (hlen' : π'.length ≤ depth) :
    F.tableAt (Function.update mem (F.slot t i) w) r' π' = F.tableAt mem r' π' := by
  apply tableAt_congr
  intro ρ j u hρ hu
  have hlt : ρ.length < depth := by
    have := hρ.length_le
    simp only [List.length_append, List.length_singleton] at this
    omega
  -- the slot read belongs to a table strictly above the bottom, so it is not the one written
  refine Function.update_of_ne (fun hs => ?_) _ _
  have hal := hF.aligned _ (hF.table_live r' hr' ρ u hlt.le hu)
  have halt := hF.aligned _ (hF.table_live r hr π t hlen.le ht)
  obtain ⟨hut, -⟩ := F.slot_eq hal halt hs
  subst hut
  obtain ⟨-, hπρ⟩ := hF.unshared r hr r' hr' π ρ u hlen.le hlt.le ht hu
  rw [hπρ] at hlen
  omega

/-- **Overwriting a bottom slot changes the word of exactly one path.** -/
lemma leafWord_write [DecidableEq I] {r' : ℕ} (hr' : r' ∈ roots) {π' : List I}
    (hlen' : π'.length = depth) (j : I) :
    F.leafWord (Function.update mem (F.slot t i) w) r' π' j
      = if r' = r ∧ π' = π ∧ j = i then w else F.leafWord mem r' π' j := by
  have htab := tableAt_write hF hr hlen ht i w hr' hlen'.le
  rw [leafWord, htab]
  cases hu : F.tableAt mem r' π' with
  | none =>
    have hne : ¬ (r' = r ∧ π' = π ∧ j = i) := by
      rintro ⟨rfl, rfl, -⟩
      rw [ht] at hu
      exact absurd hu (by simp)
    simp [hne, leafWord, hu]
  | some u =>
    have hal := hF.aligned _ (hF.table_live r' hr' π' u hlen'.le hu)
    have halt := hF.aligned _ (hF.table_live r hr π t hlen.le ht)
    simp only [Function.update_apply, leafWord, hu]
    by_cases hs : F.slot u j = F.slot t i
    · obtain ⟨hut, hji⟩ := F.slot_eq hal halt hs
      subst hut
      obtain ⟨hrr, hππ⟩ := hF.unshared r' hr' r hr π' π u hlen'.le hlen.le hu ht
      rw [if_pos hs, if_pos ⟨hrr, hππ, hji⟩]
    · have hne : ¬ (r' = r ∧ π' = π ∧ j = i) := by
        rintro ⟨rfl, rfl, rfl⟩
        rw [ht] at hu
        exact hs (by rw [Option.some.inj hu])
      rw [if_neg hs, if_neg hne]

/-- Overwriting a bottom slot keeps the trees separate. -/
theorem Forest.write : F.Forest Node depth roots live (Function.update mem (F.slot t i) w) := by
  have htab : ∀ r' ∈ roots, ∀ π' : List I, π'.length ≤ depth →
      F.tableAt (Function.update mem (F.slot t i) w) r' π' = F.tableAt mem r' π' :=
    fun r' hr' π' hlen' => tableAt_write hF hr hlen ht i w hr' hlen'
  refine ⟨hF.aligned, ?_, ?_, ?_⟩
  · intro r' hr' π' u hlen' hu
    rw [htab r' hr' π' hlen'] at hu
    exact hF.table_live r' hr' π' u hlen' hu
  · intro r₁ hr₁ r₂ hr₂ π₁ π₂ u h₁ h₂ hu₁ hu₂
    rw [htab r₁ hr₁ π₁ h₁] at hu₁
    rw [htab r₂ hr₂ π₂ h₂] at hu₂
    exact hF.unshared r₁ hr₁ r₂ hr₂ π₁ π₂ u h₁ h₂ hu₁ hu₂
  · intro r' hr' π' u j hlt hu
    rw [htab r' hr' π' hlt.le] at hu
    have hal := hF.aligned _ (hF.table_live r' hr' π' u hlt.le hu)
    have halt := hF.aligned _ (hF.table_live r hr π t hlen.le ht)
    rw [Function.update_of_ne]
    · exact hF.node r' hr' π' u j hlt hu
    · intro hs
      obtain ⟨hut, -⟩ := F.slot_eq hal halt hs
      subst hut
      obtain ⟨-, hππ⟩ := hF.unshared r hr r' hr' π π' u hlen.le hlt.le ht hu
      rw [hππ] at hlen
      omega

end Write

/-! ## Linking a fresh table -/

/-- The memory after the table at `a` has been filled with zeros. -/
def zeroTable (F : RadixFormat I W) (mem : ℕ → W) (a : ℕ) : ℕ → W :=
  fun x => if F.inTable a x then F.zero else mem x

lemma zeroTable_self (mem : ℕ → W) (a : ℕ) (i : I) : F.zeroTable mem a (F.slot a i) = F.zero := by
  simp [zeroTable, F.slot_inTable]

lemma zeroTable_other {a t : ℕ} (ha : F.Aligned a) (ht : F.Aligned t) (hne : t ≠ a) (i : I) :
    F.zeroTable mem a (F.slot t i) = mem (F.slot t i) := by
  have hout : F.inTable a (F.slot t i) = false := by
    cases h : F.inTable a (F.slot t i) with
    | false => rfl
    | true => exact absurd (F.apart t a _ ht ha (F.slot_inTable t i) h) hne
  simp [zeroTable, hout]

/-- Zeroing a table that holds zeros changes nothing. -/
lemma zeroTable_eq_self {mem : ℕ → W} {a : ℕ} (h : ∀ i, mem (F.slot a i) = F.zero) :
    F.zeroTable mem a = mem := by
  funext x
  rw [zeroTable]
  split_ifs with hx
  · obtain ⟨i, rfl⟩ := F.exists_slot a x hx
    exact (h i).symm
  · rfl

/-- Zero a fresh table and store a word that refers to it. -/
def linkTable (F : RadixFormat I W) (mem : ℕ → W) (s a : ℕ) (w : W) : ℕ → W :=
  Function.update (F.zeroTable mem a) s w

section Link

variable (hF : F.Forest Node depth roots live mem) {r t a : ℕ} {π : List I} {i : I} {w : W}
  (hr : r ∈ roots) (hlen : π.length < depth) (ht : F.tableAt mem r π = some t)
  (hnone : F.decode (mem (F.slot t i)) = none) (ha : F.Aligned a) (hfresh : a ∉ live)
  (hw : F.decode w = some a)

include hF hr hlen ht ha hfresh

lemma link_slot_fresh (j : I) : F.linkTable mem (F.slot t i) a w (F.slot a j) = F.zero := by
  have htlive := hF.table_live r hr π t hlen.le ht
  have hne : F.slot a j ≠ F.slot t i := by
    intro hs
    obtain ⟨hat, -⟩ := F.slot_eq ha (hF.aligned t htlive) hs
    exact hfresh (hat ▸ htlive)
  rw [linkTable, Function.update_of_ne hne, zeroTable_self]

lemma link_slot_live {u : ℕ} (hu : u ∈ live) {j : I} (hne : ¬ (u = t ∧ j = i)) :
    F.linkTable mem (F.slot t i) a w (F.slot u j) = mem (F.slot u j) := by
  have htlive := hF.table_live r hr π t hlen.le ht
  have hs : F.slot u j ≠ F.slot t i := fun hs =>
    hne (F.slot_eq (hF.aligned u hu) (hF.aligned t htlive) hs)
  have hua : u ≠ a := fun h => hfresh (h ▸ hu)
  rw [linkTable, Function.update_of_ne hs, zeroTable_other ha (hF.aligned u hu) hua]

/-- A path that does not go through the new link is walked as before. -/
lemma tableAt_link_other {r' : ℕ} (hr' : r' ∈ roots) {π' : List I} (hlen' : π'.length ≤ depth)
    (hne : ¬ (r' = r ∧ π ++ [i] <+: π')) :
    F.tableAt (F.linkTable mem (F.slot t i) a w) r' π' = F.tableAt mem r' π' := by
  apply tableAt_congr
  intro ρ j u hρ hu
  have hlt : ρ.length ≤ depth := by
    have := hρ.length_le
    simp only [List.length_append, List.length_singleton] at this
    omega
  apply link_slot_live hF hr hlen ht ha hfresh (hF.table_live r' hr' ρ u hlt hu)
  rintro ⟨rfl, rfl⟩
  obtain ⟨rfl, rfl⟩ := hF.unshared r' hr' r hr ρ π u hlt hlen.le hu ht
  exact hne ⟨rfl, hρ⟩

include hw

/-- The new link leads to the new table. -/
lemma tableAt_link_self : F.tableAt (F.linkTable mem (F.slot t i) a w) r (π ++ [i]) = some a := by
  have hπ : F.tableAt (F.linkTable mem (F.slot t i) a w) r π = some t := by
    rw [tableAt_link_other hF hr hlen ht ha hfresh hr hlen.le, ht]
    rintro ⟨-, h⟩
    have := h.length_le
    simp only [List.length_append, List.length_singleton] at this
    omega
  rw [tableAt_snoc, hπ, Option.bind_some, linkTable, Function.update_self, hw]

/-- Below the new table there is nothing yet. -/
lemma tableAt_link_below {ρ : List I} (hρ : ρ ≠ []) :
    F.tableAt (F.linkTable mem (F.slot t i) a w) r (π ++ [i] ++ ρ) = none := by
  rw [tableAt_append, tableAt_link_self hF hr hlen ht ha hfresh hw, Option.bind_some]
  cases ρ with
  | nil => exact absurd rfl hρ
  | cons j ρ =>
    rw [tableAt, link_slot_fresh hF hr hlen ht ha hfresh, F.decode_zero]
    rfl

/-- What a walk meets after the link: the new table on the new path, what was there before
elsewhere. -/
lemma tableAt_link_cases {r' u : ℕ} (hr' : r' ∈ roots) {π' : List I} (hlen' : π'.length ≤ depth)
    (hu : F.tableAt (F.linkTable mem (F.slot t i) a w) r' π' = some u) :
    (r' = r ∧ π' = π ++ [i] ∧ u = a) ∨ F.tableAt mem r' π' = some u := by
  by_cases hne : r' = r ∧ π ++ [i] <+: π'
  · obtain ⟨rfl, ρ, rfl⟩ := hne
    left
    by_cases hρ : ρ = []
    · subst hρ
      rw [List.append_nil] at hu ⊢
      rw [tableAt_link_self hF hr hlen ht ha hfresh hw] at hu
      exact ⟨rfl, rfl, (Option.some.inj hu).symm⟩
    · rw [tableAt_link_below hF hr hlen ht ha hfresh hw hρ] at hu
      exact absurd hu (by simp)
  · right
    rwa [tableAt_link_other hF hr hlen ht ha hfresh hr' hlen' hne] at hu

/-- Linking a fresh table keeps the trees separate, with one more live table. -/
theorem Forest.link (hnw : Node r w) (hnz : Node r F.zero) :
    F.Forest Node depth roots (a :: live) (F.linkTable mem (F.slot t i) a w) := by
  have hcases := @tableAt_link_cases I W F Node depth roots live mem hF r t a π i w hr hlen ht
    ha hfresh hw
  refine ⟨?_, ?_, ?_, ?_⟩
  · intro u hu
    rcases List.mem_cons.mp hu with rfl | hu
    · exact ha
    · exact hF.aligned u hu
  · intro r' hr' π' u hlen' hu
    rcases hcases hr' hlen' hu with ⟨-, -, rfl⟩ | hu
    · exact List.mem_cons_self
    · exact List.mem_cons_of_mem _ (hF.table_live r' hr' π' u hlen' hu)
  · intro r₁ hr₁ r₂ hr₂ π₁ π₂ u h₁ h₂ hu₁ hu₂
    -- an old table is live, the new one is not, so the two kinds never meet
    rcases hcases hr₁ h₁ hu₁ with ⟨hr1, hπ1, hua⟩ | hold₁
    · rcases hcases hr₂ h₂ hu₂ with ⟨hr2, hπ2, -⟩ | hold₂
      · exact ⟨hr1.trans hr2.symm, hπ1.trans hπ2.symm⟩
      · exact absurd (hua ▸ hF.table_live r₂ hr₂ π₂ u h₂ hold₂) hfresh
    · rcases hcases hr₂ h₂ hu₂ with ⟨-, -, hua⟩ | hold₂
      · exact absurd (hua ▸ hF.table_live r₁ hr₁ π₁ u h₁ hold₁) hfresh
      · exact hF.unshared r₁ hr₁ r₂ hr₂ π₁ π₂ u h₁ h₂ hold₁ hold₂
  · intro r' hr' π' u j hlt hu
    rcases hcases hr' hlt.le hu with ⟨rfl, -, rfl⟩ | hold
    · rw [link_slot_fresh hF hr hlen ht ha hfresh]
      exact hnz
    · by_cases hut : u = t ∧ j = i
      · obtain ⟨rfl, rfl⟩ := hut
        obtain ⟨rfl, -⟩ := hF.unshared r' hr' r hr π' π u hlt.le hlen.le hold ht
        rw [linkTable, Function.update_self]
        exact hnw
      · rw [link_slot_live hF hr hlen ht ha hfresh (hF.table_live r' hr' π' u hlt.le hold) hut]
        exact hF.node r' hr' π' u j hlt hold

include hnone

omit hw in
/-- Linking a fresh table leaves the tables that existed in their places. -/
lemma tableAt_link_mono {r' u : ℕ} (hr' : r' ∈ roots) {π' : List I} (hlen' : π'.length ≤ depth)
    (hu : F.tableAt mem r' π' = some u) :
    F.tableAt (F.linkTable mem (F.slot t i) a w) r' π' = some u := by
  rw [tableAt_link_other hF hr hlen ht ha hfresh hr' hlen', hu]
  rintro ⟨rfl, ρ, rfl⟩
  rw [tableAt_append, tableAt_snoc, ht, Option.bind_some, hnone] at hu
  cases hu

/-- Linking a fresh table supplies the table of one path and of no other. -/
lemma tableAt_link_eq_none_iff {π' : List I} (hlen' : π'.length ≤ depth) :
    F.tableAt (F.linkTable mem (F.slot t i) a w) r π' = none ↔
      F.tableAt mem r π' = none ∧ π' ≠ π ++ [i] := by
  refine ⟨fun hnew => ⟨?_, ?_⟩, ?_⟩
  · refine Option.eq_none_iff_forall_ne_some.mpr fun u hu => ?_
    rw [tableAt_link_mono hF hr hlen ht hnone ha hfresh hr hlen' hu] at hnew
    cases hnew
  · rintro rfl
    rw [tableAt_link_self hF hr hlen ht ha hfresh hw] at hnew
    cases hnew
  · rintro ⟨hold, hne⟩
    refine Option.eq_none_iff_forall_ne_some.mpr fun u hu => ?_
    rcases tableAt_link_cases hF hr hlen ht ha hfresh hw hr hlen' hu with ⟨-, hpath, -⟩ | hu
    · exact hne hpath
    · rw [hold] at hu
      cases hu

/-- **Linking a fresh table changes no bottom word.**  A path through the new link had no bottom
table before, hence counted as zero; now it either still has none or ends in the zeroed one. -/
lemma leafWord_link {r' : ℕ} (hr' : r' ∈ roots) {π' : List I} (hlen' : π'.length = depth) (j : I) :
    F.leafWord (F.linkTable mem (F.slot t i) a w) r' π' j = F.leafWord mem r' π' j := by
  by_cases hne : r' = r ∧ π ++ [i] <+: π'
  · obtain ⟨rfl, ρ, rfl⟩ := hne
    have hold : F.tableAt mem r' (π ++ [i] ++ ρ) = none := by
      rw [tableAt_append, tableAt_snoc, ht, Option.bind_some, hnone]
      rfl
    rw [leafWord_of_none F hold]
    by_cases hρ : ρ = []
    · subst hρ
      rw [List.append_nil, leafWord_of_tableAt F
        (tableAt_link_self hF hr hlen ht ha hfresh hw)]
      exact link_slot_fresh hF hr hlen ht ha hfresh j
    · exact leafWord_of_none F (tableAt_link_below hF hr hlen ht ha hfresh hw hρ) j
  · have htab := tableAt_link_other hF hr hlen ht ha hfresh (w := w) hr' hlen'.le hne
    cases hu : F.tableAt mem r' π' with
    | none => rw [leafWord_of_none F hu, leafWord_of_none F (htab.trans hu)]
    | some u =>
      rw [leafWord_of_tableAt F hu, leafWord_of_tableAt F (htab.trans hu)]
      apply link_slot_live hF hr hlen ht ha hfresh (hF.table_live r' hr' π' u hlen'.le hu)
      -- a bottom table is not the one the link was stored in
      rintro ⟨rfl, -⟩
      obtain ⟨-, hππ⟩ := hF.unshared r' hr' r hr π' π u hlen'.le hlen.le hu ht
      rw [hππ] at hlen'
      omega

end Link

/-! ## Planting a new tree -/

section Root

variable (hF : F.Forest Node depth roots live mem) {a : ℕ} (ha : F.Aligned a) (hfresh : a ∉ live)

include hF ha hfresh

/-- Zeroing a fresh table changes no live one. -/
lemma zeroTable_fresh {t : ℕ} (ht : t ∈ live) (i : I) :
    F.zeroTable mem a (F.slot t i) = mem (F.slot t i) :=
  zeroTable_other ha (hF.aligned t ht) (fun h => hfresh (h ▸ ht)) i

/-- Zeroing a fresh table changes no walk from an old root. -/
lemma tableAt_addRoot {r : ℕ} (hr : r ∈ roots) {π : List I} (hlen : π.length ≤ depth) :
    F.tableAt (F.zeroTable mem a) r π = F.tableAt mem r π :=
  tableAt_of_agree (hF.agree_of_live fun _ ht => zeroTable_fresh hF ha hfresh ht) hr hlen

lemma leafWord_addRoot {r : ℕ} (hr : r ∈ roots) {π : List I} (hlen : π.length ≤ depth) (i : I) :
    F.leafWord (F.zeroTable mem a) r π i = F.leafWord mem r π i :=
  leafWord_of_agree (hF.agree_of_live fun _ ht => zeroTable_fresh hF ha hfresh ht) hr hlen i

omit hF ha hfresh in
/-- Below a zeroed table there is nothing. -/
lemma tableAt_zeroTable {π : List I} {t : ℕ} (h : F.tableAt (F.zeroTable mem a) a π = some t) :
    π = [] ∧ t = a := by
  cases π with
  | nil => exact ⟨rfl, (Option.some.inj h).symm⟩
  | cons i π => simp [tableAt, zeroTable_self, F.decode_zero] at h

/-- A zeroed fresh table is the root of a tree apart from the others. -/
theorem Forest.addRoot (hnz : Node a F.zero) :
    F.Forest Node depth (insert a roots) (a :: live) (F.zeroTable mem a) := by
  refine ⟨?_, ?_, ?_, ?_⟩
  · intro u hu
    rcases List.mem_cons.mp hu with rfl | hu
    · exact ha
    · exact hF.aligned u hu
  · rintro r (rfl | hr) π t hlen ht
    · rw [(tableAt_zeroTable ht).2]
      exact List.mem_cons_self
    · rw [tableAt_addRoot hF ha hfresh hr hlen] at ht
      exact List.mem_cons_of_mem a (hF.table_live r hr π t hlen ht)
  · rintro r (rfl | hr) r' (rfl | hr') π π' t hlen hlen' ht ht'
    · exact ⟨rfl, (tableAt_zeroTable ht).1.trans (tableAt_zeroTable ht').1.symm⟩
    · rw [tableAt_addRoot hF ha hfresh hr' hlen'] at ht'
      rw [(tableAt_zeroTable ht).2] at ht'
      exact absurd (hF.table_live r' hr' π' r hlen' ht') hfresh
    · rw [tableAt_addRoot hF ha hfresh hr hlen] at ht
      rw [(tableAt_zeroTable ht').2] at ht
      exact absurd (hF.table_live r hr π r' hlen ht) hfresh
    · rw [tableAt_addRoot hF ha hfresh hr hlen] at ht
      rw [tableAt_addRoot hF ha hfresh hr' hlen'] at ht'
      exact hF.unshared r hr r' hr' π π' t hlen hlen' ht ht'
  · rintro r (rfl | hr) π t i hlen ht
    · rw [(tableAt_zeroTable ht).2, zeroTable_self]
      exact hnz
    · rw [tableAt_addRoot hF ha hfresh hr hlen.le] at ht
      rw [zeroTable_fresh hF ha hfresh (hF.table_live r hr π t hlen.le ht)]
      exact hF.node r hr π t i hlen ht

end Root

end RadixFormat

end Masika
