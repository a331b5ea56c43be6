import Masika.Memory.Virtual.Operations

/-!
# Cloning an address space

`clone_address_space` gives a child a new PML4 and copies the four levels of the parent below it.
Each level is a loop over the 512 entries of a table, and each finds that table again by its indices
instead of taking it from the level above: `clone_pd` and `clone_pt` start from slot 0 of the PML4,
and `clone_pt` from slot 0 of the PDPT as well.

* `Cloning` is what holds between two steps of the copy: the trees of parent and child are in order
  and apart, the tables of the parent are as they were but for the pages that have been marked, and
  no page of the child is present.
* `Fills` says what a loop makes of an empty table, in terms of the parent before the call; there is
  one such lemma for each level, all from `cloneEach_all`.
* `cloneAddressSpace_preserves_iff` tells which address spaces are cloned with their mappings.
-/

namespace Masika

open VirtualMemoryManager

/-! ## The code -/

/-- How a part of the cloning ends: `none` when it follows a null pointer. -/
abbrev CloneResult := Option (Except VmmError Unit × TableMem)

/-- `!entry.is_unused() && entry.addr() != 0`. -/
def linkedEntry (E : PageEntryApi) (e : U64) : Bool := !E.isUnused e && E.addr e != 0#64

/-- `&*PhysAddr(entry.addr()).as_ptr()`, which nobody has checked. -/
def derefTable (E : PageEntryApi) (s : TableMem) (entry : ℕ) : Option ℕ :=
  if E.addr (s.mem entry) = 0#64 then none else some (E.addr (s.mem entry)).toNat

/-- `for i in 0..512 { body(i)?; }`. -/
def cloneEach (body : Fin 512 → TableMem → CloneResult) : Path → TableMem → CloneResult
  | [], s => some (.ok (), s)
  | i :: is, s =>
    match body i s with
    | none => none
    | some (.error e, s) => some (.error e, s)
    | some (.ok (), s) => cloneEach body is s

/-- The loop that the three upper levels have in common: for each entry of `source` that is linked,
a new table, cleared, is linked at the same place of `target`, and then filled. -/
def cloneTables (E : PageEntryApi) (A : FrameAllocator) (source target : ℕ)
    (fill : Fin 512 → ℕ → TableMem → CloneResult) : TableMem → CloneResult :=
  cloneEach (fun i s =>
    if linkedEntry E (s.mem (x86.slot source i)) then
      match A.new s.live with
      | none => some (.error .outOfMemory, s)
      | some frame =>
        let s : TableMem := ⟨x86.zeroTable s.mem frame, frame :: s.live⟩
        fill i frame
          (s.write (x86.slot target i)
            (E.set (BitVec.ofNat 64 frame) 0x03#64 (s.mem (x86.slot target i))))
    else some (.ok (), s)) (List.finRange 512)

namespace VirtualMemoryManager

section Clone

variable (E : PageEntryOps) (A : FrameAllocator) (vmm : VirtualMemoryManager)

/-- `let pml4_idx = 0; let pdpt_idx = 0;`, whatever tables are being cloned. -/
def clonePt (pdIdx : Fin 512) (newPt : ℕ) (s : TableMem) : CloneResult := do
  let pdpt ← derefTable E s (x86.slot vmm.pml4 0)
  let pd ← derefTable E s (x86.slot pdpt 0)
  let oldPt ← derefTable E s (x86.slot pd pdIdx)
  cloneEach (fun i s =>
    let entry := x86.slot oldPt i
    if linkedEntry E (s.mem entry) then
      let physAddr := E.addr (s.mem entry)
      let s := vmm.markPageCow E s (virtOf 0 0 pdIdx i)
      some (.ok (), s.write (x86.slot newPt i)
        (E.set physAddr (E.flags (s.mem entry) &&& ~~~0x01#64) (s.mem (x86.slot newPt i))))
    else some (.ok (), s)) (List.finRange 512) s

/-- `let pml4_idx = 0;`. -/
def clonePd (pdptIdx : Fin 512) (newPd : ℕ) (s : TableMem) : CloneResult := do
  let pdpt ← derefTable E s (x86.slot vmm.pml4 0)
  let oldPd ← derefTable E s (x86.slot pdpt pdptIdx)
  cloneTables E A oldPd newPd (clonePt E vmm) s

/-- The tables below an entry of the top table. -/
def clonePdpt (pml4Idx : Fin 512) (newPdpt : ℕ) (s : TableMem) : CloneResult := do
  let oldPdpt ← derefTable E s (x86.slot vmm.pml4 pml4Idx)
  cloneTables E A oldPdpt newPdpt (clonePd E A vmm) s

/-- Only level 0 does something. -/
def cloneTablesRecursive (level newPml4 : ℕ) (s : TableMem) : CloneResult :=
  match level with
  | 0 => cloneTables E A vmm.pml4 newPml4 (clonePdpt E A vmm) s
  | _ => some (.ok (), s)

/-- A new top table, and below it copies of the tables. -/
def cloneAddressSpace (s : TableMem) : Option (Except VmmError VirtualMemoryManager × TableMem) :=
  match A.new s.live with
  | none => some (.error .outOfMemory, s)
  | some newPml4 =>
    let newManager := { vmm with pml4 := newPml4, pageCount := 0#64 }
    (cloneTablesRecursive E A vmm 0 newManager.pml4
      ⟨x86.zeroTable s.mem newPml4, newPml4 :: s.live⟩).map fun
      | (.ok (), s) => (.ok newManager, s)
      | (.error e, s) => (.error e, s)

end Clone

end VirtualMemoryManager

/-! ## Loops -/

/-- **The rule for the loops.**  What each round keeps, given that it had not been made before,
holds at the end for all 512 of them. -/
lemma cloneEach_invariant {body : Fin 512 → TableMem → CloneResult} {P : Path → TableMem → Prop}
    (hstep : ∀ done i s s', i ∉ done → P done s → body i s = some (.ok (), s') →
      P (done ++ [i]) s') :
    ∀ (is done : Path) (s s' : TableMem), (done ++ is).Nodup → P done s →
      cloneEach body is s = some (.ok (), s') → P (done ++ is) s' := by
  intro is
  induction is with
  | nil =>
    intro done s s' _ hP h
    simp only [cloneEach, Option.some.injEq, Prod.mk.injEq, true_and] at h
    rw [List.append_nil, ← h]
    exact hP
  | cons i is ih =>
    intro done s s' hnodup hP h
    rw [cloneEach] at h
    cases hbody : body i s with
    | none => simp [hbody] at h
    | some r =>
      obtain ⟨answer, s₁⟩ := r
      cases answer with
      | error e => simp [hbody] at h
      | ok u =>
        simp only [hbody] at h
        have hi : i ∉ done := fun hmem =>
          (List.disjoint_of_nodup_append hnodup) hmem List.mem_cons_self
        have hnodup' : ((done ++ [i]) ++ is).Nodup := by
          rwa [List.append_assoc, List.singleton_append]
        have := ih (done ++ [i]) s₁ s' hnodup' (hstep done i s s₁ hi hP hbody) h
        rwa [List.append_assoc, List.singleton_append] at this

lemma cloneEach_all {body : Fin 512 → TableMem → CloneResult} {P : Path → TableMem → Prop}
    (hstep : ∀ done i s s', i ∉ done → P done s → body i s = some (.ok (), s') →
      P (done ++ [i]) s') {s s' : TableMem} (hP : P [] s)
    (h : cloneEach body (List.finRange 512) s = some (.ok (), s')) : P (List.finRange 512) s' := by
  have hnodup := List.nodup_finRange 512
  rw [← List.nil_append (List.finRange 512)] at hnodup ⊢
  exact cloneEach_invariant hstep _ [] s s' hnodup hP h

/-! ## What a clone in progress looks like -/

/-- The entry of the parent is as before, or it has been marked. -/
def Marked (e e' : U64) : Prop :=
  e' = e ∨ (hwAddr e ≠ 0#64 ∧ hwAddr e' = hwAddr e ∧ PageTableEntry.present e' = false)

lemma Marked.hwAddr_eq {e e' : U64} (h : Marked e e') : hwAddr e' = hwAddr e := by
  rcases h with rfl | ⟨-, h, -⟩
  · rfl
  · exact h

lemma Marked.mappedFrame_eq {e e' : U64} (h : Marked e e') : mappedFrame e' = mappedFrame e := by
  rcases h with rfl | ⟨hne, heq, -⟩
  · rfl
  · have hne' : hwAddr e' ≠ 0#64 := by rwa [heq]
    rw [mappedFrame_of_ne (ne_zero_of_hwAddr hne), mappedFrame_of_ne (ne_zero_of_hwAddr hne'), heq]

/-- The tree below `c` is being made from the tree below `p`, which was in order in `s₀`. -/
structure Cloning (Node : ℕ → U64 → Prop) (roots : Set ℕ) (p c : ℕ) (s₀ s : TableMem) : Prop where
  forest : x86.Forest Node 3 (insert c roots) s.live s.mem
  live : s₀.live ⊆ s.live
  /-- nothing changes above the page tables of the parent -/
  upper : ∀ (π : Path) t i, π.length < 3 → x86.tableAt s₀.mem p π = some t →
    s.mem (x86.slot t i) = s₀.mem (x86.slot t i)
  marked : ∀ (π : Path) t i, π.length = 3 → x86.tableAt s₀.mem p π = some t →
    Marked (s₀.mem (x86.slot t i)) (s.mem (x86.slot t i))
  /-- no page of the child is present -/
  hidden : ∀ (π : Path) t i, π.length = 3 → x86.tableAt s.mem c π = some t →
    PageTableEntry.present (s.mem (x86.slot t i)) = false
  /-- the tables of the child are new -/
  fresh : ∀ (π : Path) t, π.length ≤ 3 → x86.tableAt s.mem c π = some t → t ∉ s₀.live
  data : ∀ d ∈ s₀.live, ¬ IsTable roots s₀ d → ∀ i, s.mem (x86.slot d i) = s₀.mem (x86.slot d i)

section Progress

variable {E : PageEntryApi} {Node : ℕ → U64 → Prop} {roots : Set ℕ} {p c : ℕ} {s₀ s : TableMem}
  (hs₀ : VmmForest E Node roots p s₀)

namespace Cloning

lemma tableAt_parent (h : Cloning Node roots p c s₀ s) {π : Path} (hπ : π.length ≤ 3) :
    x86.tableAt s.mem p π = x86.tableAt s₀.mem p π := by
  refine x86.tableAt_congr fun ρ i t hρ ht => h.upper ρ t i ?_ ht
  have := hρ.length_le
  simp only [List.length_append, List.length_singleton] at this
  omega

/-- The entries of the parent have been marked at most. -/
lemma leafOf_marked (h : Cloning Node roots p c s₀ s) (virt : U64) :
    Marked (s₀.leafOf p virt) (s.leafOf p virt) := by
  have htab := h.tableAt_parent (upperPath_length virt).le
  cases ht : x86.tableAt s₀.mem p (upperPath virt) with
  | none =>
    left
    rw [TableMem.leafOf, TableMem.leafOf, RadixFormat.leafWord_of_none x86 ht,
      RadixFormat.leafWord_of_none x86 (htab.trans ht)]
  | some t =>
    rw [leafOf_of_tableAt ht, leafOf_of_tableAt (htab.trans ht)]
    exact h.marked _ t _ (upperPath_length virt) ht

include hs₀ in
lemma parentTree (h : Cloning Node roots p c s₀ s) : VmmForest E Node (insert c roots) p s :=
  ⟨h.forest, .inr hs₀.root, hs₀.entries⟩

lemma childTree (h : Cloning Node roots p c s₀ s) (hc : Node c = IsVmmEntry E) :
    VmmForest E Node (insert c roots) c s :=
  ⟨h.forest, .inl rfl, hc⟩

/-- The tables of the child are in use. -/
lemma child_live (h : Cloning Node roots p c s₀ s) {π : Path} {t : ℕ}
    (hπ : π.length ≤ 3) (ht : x86.tableAt s.mem c π = some t) : t ∈ s.live :=
  h.forest.table_live c (.inl rfl) π t hπ ht

/-- A frame that was in use before is not a table of the child. -/
lemma ne_child (h : Cloning Node roots p c s₀ s) {π : Path} {t d : ℕ}
    (hπ : π.length ≤ 3) (ht : x86.tableAt s.mem c π = some t) (hd : d ∈ s₀.live) : d ≠ t := by
  rintro rfl
  exact h.fresh π d hπ ht hd

include hs₀ in
/-- The clone starts with an empty root. -/
lemma start (hc : Node c = IsVmmEntry E) (hal : c % 4096 = 0) (hfresh : c ∉ s₀.live) :
    Cloning Node roots p c s₀ ⟨x86.zeroTable s₀.mem c, c :: s₀.live⟩ := by
  have hkeep : ∀ u ∈ s₀.live, ∀ i, x86.zeroTable s₀.mem c (x86.slot u i) = s₀.mem (x86.slot u i) :=
    fun u hu => RadixFormat.zeroTable_fresh hs₀.forest hal hfresh hu
  have hparent : ∀ (π : Path) u, π.length ≤ 3 → x86.tableAt s₀.mem p π = some u →
      u ∈ s₀.live := fun π u hπ hu => hs₀.forest.table_live p hs₀.root π u hπ hu
  refine ⟨RadixFormat.Forest.addRoot hs₀.forest hal hfresh (by rw [hc]; exact .inl rfl),
    fun u hu => List.mem_cons_of_mem c hu, ?_, ?_, ?_, ?_, fun d hd _ i => hkeep d hd i⟩
  · exact fun π u i hπ hu => hkeep u (hparent π u hπ.le hu) i
  · exact fun π u i hπ hu => .inl (hkeep u (hparent π u hπ.le hu) i)
  · intro π u i hπ hu
    rw [(RadixFormat.tableAt_zeroTable hu).1] at hπ
    cases hπ
  · intro π u _ hu
    rwa [(RadixFormat.tableAt_zeroTable hu).2]

/-- Writes go to one slot of one frame. -/
lemma write_other (h : Cloning Node roots p c s₀ s) {t u : ℕ} (ht : t ∈ s.live) (hu : u ∈ s.live)
    {i j : Fin 512} (hne : ¬ (u = t ∧ j = i)) (w : U64) :
    (s.write (x86.slot t i) w).mem (x86.slot u j) = s.mem (x86.slot u j) :=
  Function.update_of_ne
    (fun hslot => hne (x86.slot_eq (h.forest.aligned u hu) (h.forest.aligned t ht) hslot)) _ _

/-- **Linking a new table into the child.** -/
lemma link (h : Cloning Node roots p c s₀ s) (hs₀ : VmmForest E Node roots p s₀)
    (hc : Node c = IsVmmEntry E) {ρ : Path} {t a : ℕ} {m : Fin 512} (hρ : ρ.length < 3)
    (ht : x86.tableAt s.mem c ρ = some t) (hal : a % 4096 = 0) (hlow : a < 2 ^ 52)
    (hfresh : a ∉ s.live) :
    Cloning Node roots p c s₀ ⟨x86.linkTable s.mem (x86.slot t m) a
      (E.set (BitVec.ofNat 64 a) 0x03#64 0#64), a :: s.live⟩ := by
  have hw := hwNext_vmmLink E hal hlow 0#64
  have hcroot : c ∈ insert c roots := .inl rfl
  have hold : ∀ u ∈ s₀.live, ∀ i, x86.linkTable s.mem (x86.slot t m) a
      (E.set (BitVec.ofNat 64 a) 0x03#64 0#64) (x86.slot u i) = s.mem (x86.slot u i) := by
    intro u hu i
    refine RadixFormat.link_slot_live h.forest hcroot hρ ht hal hfresh (h.live hu) ?_
    rintro ⟨hut, -⟩
    exact h.ne_child hρ.le ht hu hut
  have hparent : ∀ (π : Path) u, π.length ≤ 3 → x86.tableAt s₀.mem p π = some u →
      u ∈ s₀.live := fun π u hπ hu => hs₀.forest.table_live p hs₀.root π u hπ hu
  have hnode : Node c (E.set (BitVec.ofNat 64 a) 0x03#64 0#64) ∧ Node c 0#64 := by
    rw [hc]
    exact ⟨.inr ⟨a, hal, hlow, rfl⟩, .inl rfl⟩
  have hcases : ∀ (π : Path) u, π.length ≤ 3 → x86.tableAt (x86.linkTable s.mem
      (x86.slot t m) a (E.set (BitVec.ofNat 64 a) 0x03#64 0#64)) c π = some u →
      u = a ∨ x86.tableAt s.mem c π = some u := by
    intro π u hπ hu
    rcases RadixFormat.tableAt_link_cases h.forest hcroot hρ ht hal hfresh hw hcroot hπ hu with
      ⟨-, -, hua⟩ | hu
    · exact .inl hua
    · exact .inr hu
  refine ⟨RadixFormat.Forest.link h.forest hcroot hρ ht hal hfresh hw hnode.1 hnode.2,
    fun u hu => List.mem_cons_of_mem a (h.live hu), ?_, ?_, ?_, ?_, ?_⟩
  · intro π u i hπ hu
    exact (hold u (hparent π u hπ.le hu) i).trans (h.upper π u i hπ hu)
  · intro π u i hπ hu
    have hmarked := h.marked π u i hπ hu
    rwa [← hold u (hparent π u hπ.le hu) i] at hmarked
  · intro π u i hπ hu
    rcases hcases π u hπ.le hu with rfl | hu'
    · simp only [RadixFormat.link_slot_fresh h.forest hcroot hρ ht hal hfresh i]
      rfl
    · have hkeep := RadixFormat.link_slot_live h.forest hcroot hρ ht hal hfresh (i := m)
        (w := E.set (BitVec.ofNat 64 a) 0x03#64 0#64) (h.child_live hπ.le hu') (j := i) (by
          -- a page table is not the table that the link was stored in
          rintro ⟨rfl, -⟩
          obtain ⟨-, rfl⟩ := h.forest.unshared c hcroot c hcroot π ρ u hπ.le hρ.le hu' ht
          omega)
      have hhidden := h.hidden π u i hπ hu'
      rwa [← hkeep] at hhidden
  · intro π u hπ hu hlive
    rcases hcases π u hπ hu with rfl | hu'
    · exact hfresh (h.live hlive)
    · exact h.fresh π u hπ hu' hlive
  · intro d hd hdata i
    exact (hold d hd i).trans (h.data d hd hdata i)

/-- Writes to slots of page tables, of the parent or of the child, leave the trees in order. -/
lemma forest_write (h : Cloning Node roots p c s₀ s) {r t : ℕ} (hr : r ∈ insert c roots)
    {π : Path} (hπ : π.length = 3) (ht : x86.tableAt s.mem r π = some t) (i : Fin 512)
    (w : U64) : x86.Forest Node 3 (insert c roots) s.live (s.write (x86.slot t i) w).mem :=
  RadixFormat.Forest.write h.forest hr hπ ht i w

/-- **Marking a page of the parent.** -/
lemma mark (h : Cloning Node roots p c s₀ s) (hs₀ : VmmForest E Node roots p s₀)
    {π : Path} {t : ℕ} {l : Fin 512} (hπ : π.length = 3)
    (ht : x86.tableAt s₀.mem p π = some t) {w : U64} (hw : Marked (s₀.mem (x86.slot t l)) w) :
    Cloning Node roots p c s₀ (s.write (x86.slot t l) w) := by
  have ht' : x86.tableAt s.mem p π = some t := by rw [h.tableAt_parent hπ.le, ht]
  have htlive₀ := hs₀.forest.table_live p hs₀.root π t hπ.le ht
  have htlive := h.live htlive₀
  have htab : ∀ (π' : Path), π'.length ≤ 3 →
      x86.tableAt (s.write (x86.slot t l) w).mem c π' = x86.tableAt s.mem c π' := fun π' hπ' =>
    RadixFormat.tableAt_write h.forest (.inr hs₀.root) hπ ht' l w (.inl rfl) hπ'
  refine ⟨h.forest_write (.inr hs₀.root) hπ ht' l w, h.live, ?_, ?_, ?_, ?_, ?_⟩
  · intro π' u i hπ' hu
    have hulive := h.live (hs₀.forest.table_live p hs₀.root π' u hπ'.le hu)
    rw [h.write_other htlive hulive]
    · exact h.upper π' u i hπ' hu
    · rintro ⟨rfl, -⟩
      obtain ⟨-, rfl⟩ := hs₀.forest.unshared p hs₀.root p hs₀.root π' π u hπ'.le hπ.le hu ht
      omega
  · intro π' u i hπ' hu
    have hulive := h.live (hs₀.forest.table_live p hs₀.root π' u hπ'.le hu)
    by_cases hsame : u = t ∧ i = l
    · obtain ⟨rfl, rfl⟩ := hsame
      simpa [TableMem.write] using hw
    · rw [h.write_other htlive hulive hsame]
      exact h.marked π' u i hπ' hu
  · intro π' u i hπ' hu
    rw [htab π' hπ'.le] at hu
    rw [h.write_other htlive (h.child_live hπ'.le hu)]
    · exact h.hidden π' u i hπ' hu
    · rintro ⟨rfl, -⟩
      exact h.fresh π' u hπ'.le hu htlive₀
  · intro π' u hπ' hu
    rw [htab π' hπ'] at hu
    exact h.fresh π' u hπ' hu
  · intro d hd hdata i
    rw [h.write_other htlive (h.live hd)]
    · exact h.data d hd hdata i
    · rintro ⟨rfl, -⟩
      exact hdata ⟨p, hs₀.root, π, hπ.le, ht⟩

/-- **Filling a page table of the child**, with an entry that is not present. -/
lemma fill (h : Cloning Node roots p c s₀ s) (hs₀ : VmmForest E Node roots p s₀)
    {π : Path} {t : ℕ} (hπ : π.length = 3) (ht : x86.tableAt s.mem c π = some t)
    (l : Fin 512) {w : U64} (hw : PageTableEntry.present w = false) :
    Cloning Node roots p c s₀ (s.write (x86.slot t l) w) := by
  have htlive := h.child_live hπ.le ht
  have htab : ∀ (π' : Path), π'.length ≤ 3 →
      x86.tableAt (s.write (x86.slot t l) w).mem c π' = x86.tableAt s.mem c π' := fun π' hπ' =>
    RadixFormat.tableAt_write h.forest (.inl rfl) hπ ht l w (.inl rfl) hπ'
  have hold : ∀ u ∈ s₀.live, ∀ i,
      (s.write (x86.slot t l) w).mem (x86.slot u i) = s.mem (x86.slot u i) := by
    intro u hu i
    refine h.write_other htlive (h.live hu) ?_ w
    rintro ⟨hut, -⟩
    exact h.ne_child hπ.le ht hu hut
  have hparent : ∀ (π : Path) u, π.length ≤ 3 → x86.tableAt s₀.mem p π = some u →
      u ∈ s₀.live := fun π u hπ hu => hs₀.forest.table_live p hs₀.root π u hπ hu
  refine ⟨h.forest_write (.inl rfl) hπ ht l w, h.live, ?_, ?_, ?_, ?_, ?_⟩
  · intro π' u i hπ' hu
    rw [hold u (hparent π' u hπ'.le hu)]
    exact h.upper π' u i hπ' hu
  · intro π' u i hπ' hu
    rw [hold u (hparent π' u hπ'.le hu)]
    exact h.marked π' u i hπ' hu
  · intro π' u i hπ' hu
    rw [htab π' hπ'.le] at hu
    by_cases hsame : u = t ∧ i = l
    · obtain ⟨rfl, rfl⟩ := hsame
      simpa [TableMem.write] using hw
    · rw [h.write_other htlive (h.child_live hπ'.le hu) hsame]
      exact h.hidden π' u i hπ' hu
  · intro π' u hπ' hu
    rw [htab π' hπ'] at hu
    exact h.fresh π' u hπ' hu
  · intro d hd hdata i
    rw [hold d hd]
    exact h.data d hd hdata i

end Cloning

/-! ## One part of the child at a time -/

/-- The tables of the child outside of the subtree at `ρ` hold what they held. -/
def SubtreeOnly (c : ℕ) (ρ : Path) (s s' : TableMem) : Prop :=
  ∀ (π : Path) u i, π.length ≤ 3 → ¬ ρ <+: π → x86.tableAt s.mem c π = some u →
    s'.mem (x86.slot u i) = s.mem (x86.slot u i)

namespace SubtreeOnly

variable {ρ : Path} {s' s'' : TableMem}

lemma refl (c : ℕ) (ρ : Path) (s : TableMem) : SubtreeOnly c ρ s s :=
  fun _ _ _ _ _ _ => rfl

/-- They are where they were, and so is the table at `ρ` itself. -/
lemma tableAt (h : SubtreeOnly c ρ s s') {π : Path} (hπ : π.length ≤ 3)
    (hout : ¬ ρ <+: π ∨ π = ρ) : x86.tableAt s'.mem c π = x86.tableAt s.mem c π := by
  refine x86.tableAt_congr fun σ i t hσ ht => ?_
  have hlen := hσ.length_le
  simp only [List.length_append, List.length_singleton] at hlen
  refine h σ t i (by omega) (fun hρσ => ?_) ht
  rcases hout with hout | rfl
  · exact hout (hρσ.trans ((List.prefix_append σ [i]).trans hσ))
  · have := hρσ.length_le
    omega

lemma leafWord (h : SubtreeOnly c ρ s s') {π : Path} (hπ : π.length ≤ 3)
    (hout : ¬ ρ <+: π) (l : Fin 512) : x86.leafWord s'.mem c π l = x86.leafWord s.mem c π l := by
  refine x86.leafWord_congr (fun σ t i hσ ht => ?_) l
  exact h σ t i (hσ.length_le.trans hπ) (fun hρσ => hout (hρσ.trans hσ)) ht

lemma trans (h : SubtreeOnly c ρ s s') (h' : SubtreeOnly c ρ s' s'') : SubtreeOnly c ρ s s'' := by
  intro π u i hπ hout hu
  have hu' : x86.tableAt s'.mem c π = some u := by rw [h.tableAt hπ (.inl hout), hu]
  exact (h' π u i hπ hout hu').trans (h π u i hπ hout hu)

/-- A smaller subtree. -/
lemma mono {m : Fin 512} (h : SubtreeOnly c (ρ ++ [m]) s s') : SubtreeOnly c ρ s s' :=
  fun π u i hπ hout hu => h π u i hπ (fun hpre => hout ((List.prefix_append ρ [m]).trans hpre)) hu

end SubtreeOnly

/-- The entry at the end of `π` leads to a table, and not to the frame at address 0. -/
def HasTable (s : TableMem) (r : ℕ) (π : Path) : Prop :=
  ∃ t, x86.tableAt s.mem r π = some t ∧ t ≠ 0

instance (s : TableMem) (r : ℕ) (π : Path) : Decidable (HasTable s r π) :=
  decidable_of_iff ((x86.tableAt s.mem r π).any (· != 0) = true)
    (by simp [HasTable, Option.any_eq_true])

/-- **What the loops are for.**  `fill` makes the subtree of the child at `ρ` from an empty table
there, such that the frame at the end of the path `ρ ++ rest` with last index `l` is `G rest l`. -/
def Fills (Node : ℕ → U64 → Prop) (roots : Set ℕ) (p c : ℕ) (s₀ : TableMem) (ρ : Path)
    (fill : ℕ → TableMem → CloneResult) (G : Path → Fin 512 → Option U64) : Prop :=
  ∀ s t s', Cloning Node roots p c s₀ s → x86.tableAt s.mem c ρ = some t →
    (∀ i, s.mem (x86.slot t i) = 0#64) → fill t s = some (.ok (), s') →
    Cloning Node roots p c s₀ s' ∧ SubtreeOnly c ρ s s' ∧
      ∀ rest l, ρ.length + rest.length = 3 →
        mappedFrame (x86.leafWord s'.mem c (ρ ++ rest) l) = G rest l

/-- A walk begins at the root. -/
lemma rootTable (s : TableMem) (r : ℕ) : x86.tableAt s.mem r [] = some r := rfl

section Levels

include hs₀

lemma linkedEntry_iff {σ : Path} {u : ℕ} (hσ : σ.length < 3)
    (hu : x86.tableAt s₀.mem p σ = some u) (m : Fin 512) :
    linkedEntry E (s₀.mem (x86.slot u m)) = true ↔ HasTable s₀ p (σ ++ [m]) := by
  rw [HasTable, RadixFormat.tableAt_snoc, hu, Option.bind_some]
  rcases hs₀.node hσ hu m with he | ⟨a, hal, hlow, he⟩
  · rw [he, linkedEntry, E.isUnused_eq]
    simp [x86, show hwNext 0#64 = none from rfl]
  · have hused := vmmNext_vmmLink E hal hlow 0#64
    have hnext := hwNext_vmmLink E hal hlow 0#64
    have haddr := vmmLink_addr E hal hlow 0#64
    rw [vmmNext] at hused
    split_ifs at hused with hunused
    rw [he, linkedEntry]
    change _ ↔ ∃ t, hwNext _ = some t ∧ t ≠ 0
    simp only [hnext, Option.some.injEq, exists_eq_left']
    simp [hunused, ← BitVec.toNat_inj, haddr]

lemma derefTable_eq_some (h : Cloning Node roots p c s₀ s) {σ : Path} {u w : ℕ}
    (hσ : σ.length < 3) (hu : x86.tableAt s₀.mem p σ = some u) {m : Fin 512}
    (hw : derefTable E s (x86.slot u m) = some w) : x86.tableAt s₀.mem p (σ ++ [m]) = some w := by
  rw [derefTable, h.upper σ u m hσ hu] at hw
  split_ifs at hw with hnull
  rw [← hw]
  refine hs₀.tableAt_of_used hσ hu ?_
  rw [E.isUnused_eq, beq_eq_false_iff_ne]
  rintro he
  rw [he, E.addr_eq] at hnull
  exact hnull rfl

/-- One round of an upper level, when the entry is linked: a new table goes in, and is filled. -/
lemma cloneRound {A : FrameAllocator} {ρ : Path} {m : Fin 512} {t : ℕ} {s' : TableMem}
    (hc : Node c = IsVmmEntry E) (hρ : ρ.length < 3) (h : Cloning Node roots p c s₀ s)
    (ht : x86.tableAt s.mem c ρ = some t) (hempty : s.mem (x86.slot t m) = 0#64)
    {fill : ℕ → TableMem → CloneResult} {G : Path → Fin 512 → Option U64}
    (hfill : Fills Node roots p c s₀ (ρ ++ [m]) fill G) (hrun : (match A.new s.live with
      | none => some (.error .outOfMemory, s)
      | some frame =>
        fill frame ((⟨x86.zeroTable s.mem frame, frame :: s.live⟩ : TableMem).write (x86.slot t m)
          (E.set (BitVec.ofNat 64 frame) 0x03#64
            (x86.zeroTable s.mem frame (x86.slot t m))))) = some (.ok (), s')) :
    Cloning Node roots p c s₀ s' ∧ SubtreeOnly c ρ s s' ∧ x86.tableAt s'.mem c ρ = some t ∧
      (∀ i, i ≠ m → s'.mem (x86.slot t i) = s.mem (x86.slot t i)) ∧
      (∀ π l, π.length = 3 → ¬ ρ ++ [m] <+: π →
        x86.leafWord s'.mem c π l = x86.leafWord s.mem c π l) ∧
      ∀ rest l, ρ.length + (rest.length + 1) = 3 →
        mappedFrame (x86.leafWord s'.mem c (ρ ++ m :: rest) l) = G rest l := by
  cases hnew : A.new s.live with
  | none => simp [hnew] at hrun
  | some a =>
    have hal := A.aligned _ _ hnew
    have hlow := A.low _ _ hnew
    have hfresh := A.fresh _ _ hnew
    have hcroot : c ∈ insert c roots := .inl rfl
    have htlive := h.child_live hρ.le ht
    have hw := hwNext_vmmLink E hal hlow 0#64
    have hnone : x86.decode (s.mem (x86.slot t m)) = none := by rw [hempty]; rfl
    have hkeep : x86.zeroTable s.mem a (x86.slot t m) = 0#64 := by
      rw [RadixFormat.zeroTable_fresh h.forest hal hfresh htlive, hempty]
    simp only [hnew, hkeep, TableMem.write] at hrun
    -- the memory with the new table in it
    have h₁ := h.link hs₀ hc (m := m) hρ ht hal hlow hfresh
    have hword : ∀ u ∈ s.live, ∀ i, ¬ (u = t ∧ i = m) → x86.linkTable s.mem (x86.slot t m) a
        (E.set (BitVec.ofNat 64 a) 0x03#64 0#64) (x86.slot u i) = s.mem (x86.slot u i) :=
      fun u hu i hne => RadixFormat.link_slot_live h.forest hcroot hρ ht hal hfresh hu hne
    have hmono : ∀ (π : Path) u, π.length ≤ 3 → x86.tableAt s.mem c π = some u →
        x86.tableAt (x86.linkTable s.mem (x86.slot t m) a
          (E.set (BitVec.ofNat 64 a) 0x03#64 0#64)) c π = some u := fun π u hπ hu =>
      RadixFormat.tableAt_link_mono h.forest hcroot hρ ht hnone hal hfresh hcroot hπ hu
    obtain ⟨h', hout, hG⟩ := hfill _ a s' h₁
      (RadixFormat.tableAt_link_self h.forest hcroot hρ ht hal hfresh hw)
      (RadixFormat.link_slot_fresh h.forest hcroot hρ ht hal hfresh) hrun
    have hshort : ¬ ρ ++ [m] <+: ρ := fun hpre => by
      have := hpre.length_le
      simp only [List.length_append, List.length_singleton] at this
      omega
    refine ⟨h', SubtreeOnly.trans ?_ hout.mono, ?_, ?_, ?_, ?_⟩
    · intro π u i hπ hoff hu
      refine hword u (h.child_live hπ hu) i ?_
      rintro ⟨rfl, -⟩
      obtain ⟨-, rfl⟩ := h.forest.unshared c hcroot c hcroot π ρ u hπ hρ.le hu ht
      exact hoff List.prefix_rfl
    · rw [hout.tableAt hρ.le (.inl hshort)]
      exact hmono ρ t hρ.le ht
    · intro i hi
      exact (hout ρ t i hρ.le hshort (hmono ρ t hρ.le ht)).trans
        (hword t htlive i fun hsame => hi hsame.2)
    · intro π l hπ hoff
      rw [hout.leafWord hπ.le hoff]
      exact RadixFormat.leafWord_link h.forest hcroot hρ ht hnone hal hfresh hw hcroot hπ l
    · intro rest l hlen
      have := hG rest l (by simp only [List.length_append, List.length_singleton]; omega)
      rwa [List.append_assoc, List.singleton_append] at this

/-- **An upper level of the clone**, for a table `u` of the parent at `σ`. -/
lemma cloneTables_fills {A : FrameAllocator} (hc : Node c = IsVmmEntry E) {ρ σ : Path}
    {u : ℕ} (hρ : ρ.length < 3) (hσ : σ.length < 3) (hu : x86.tableAt s₀.mem p σ = some u)
    {fill : Fin 512 → ℕ → TableMem → CloneResult} {G : Fin 512 → Path → Fin 512 → Option U64}
    (hfill : ∀ m, HasTable s₀ p (σ ++ [m]) → Fills Node roots p c s₀ (ρ ++ [m]) (fill m) (G m))
    (F : Path → Fin 512 → Option U64)
    (hlinked : ∀ m rest l, HasTable s₀ p (σ ++ [m]) → F (m :: rest) l = G m rest l)
    (hunlinked : ∀ m rest l, ¬ HasTable s₀ p (σ ++ [m]) → F (m :: rest) l = none) :
    Fills Node roots p c s₀ ρ (fun t => cloneTables E A u t fill) F := by
  intro s t s' h ht hzero hrun
  simp only [cloneTables] at hrun
  -- the rounds made so far have filled their parts, the others are still empty
  have hinv := cloneEach_all (P := fun done s₁ => Cloning Node roots p c s₀ s₁ ∧
      SubtreeOnly c ρ s s₁ ∧ x86.tableAt s₁.mem c ρ = some t ∧
      (∀ m, m ∉ done → s₁.mem (x86.slot t m) = 0#64) ∧
      ∀ m ∈ done, ∀ rest l, ρ.length + (rest.length + 1) = 3 →
        mappedFrame (x86.leafWord s₁.mem c (ρ ++ m :: rest) l) = F (m :: rest) l) ?_
    ⟨h, .refl c ρ s, ht, fun m _ => hzero m, fun m hm => absurd hm List.not_mem_nil⟩ hrun
  · obtain ⟨h', hout, -, -, hdone⟩ := hinv
    refine ⟨h', hout, fun rest l hlen => ?_⟩
    cases rest with
    | nil =>
      simp only [List.length_nil] at hlen
      omega
    | cons m rest => exact hdone m (List.mem_finRange m) rest l hlen
  · rintro done m s₁ s₂ hm ⟨h₁, hout₁, ht₁, hzero₁, hdone₁⟩ hround
    have hentry : linkedEntry E (s₁.mem (x86.slot u m)) = true ↔ HasTable s₀ p (σ ++ [m]) := by
      rw [h₁.upper σ u m hσ hu, linkedEntry_iff hs₀ hσ hu]
    by_cases hl : HasTable s₀ p (σ ++ [m])
    · rw [if_pos (hentry.mpr hl)] at hround
      obtain ⟨h₂, hout₂, ht₂, hrest, hleaf, hG⟩ := cloneRound hs₀ hc hρ h₁ ht₁ (hzero₁ m hm)
        (hfill m hl) hround
      refine ⟨h₂, hout₁.trans hout₂, ht₂, fun i hi => ?_, fun i hi rest l hlen => ?_⟩
      · rw [List.mem_append, not_or, List.mem_singleton] at hi
        rw [hrest i hi.2]
        exact hzero₁ i hi.1
      · by_cases him : i = m
        · rw [him, hG rest l hlen, hlinked m rest l hl]
        · have hoff : ¬ ρ ++ [m] <+: ρ ++ i :: rest := by
            rw [List.prefix_append_right_inj, List.cons_prefix_cons]
            exact fun hpre => him hpre.1.symm
          rw [List.mem_append, List.mem_singleton] at hi
          rw [hleaf _ l (by simpa using hlen) hoff]
          exact hdone₁ i (hi.resolve_right him) rest l hlen
    · rw [if_neg fun hlink => hl (hentry.mp hlink), Option.some.injEq, Prod.mk.injEq] at hround
      obtain ⟨-, rfl⟩ := hround
      refine ⟨h₁, hout₁, ht₁, fun i hi => hzero₁ i fun hd => hi (List.mem_append_left _ hd),
        fun i hi rest l hlen => ?_⟩
      rw [List.mem_append, List.mem_singleton] at hi
      by_cases him : i ∈ done
      · exact hdone₁ i him rest l hlen
      · -- nothing has been linked here
        have hmi : i = m := hi.resolve_left him
        have hnone : x86.tableAt s₁.mem c (ρ ++ i :: rest) = none := by
          rw [RadixFormat.tableAt_append, ht₁, Option.bind_some, RadixFormat.tableAt, hzero₁ i him]
          rfl
        rw [RadixFormat.leafWord_of_none x86 hnone, hmi, hunlinked m rest l hl]
        rfl

end Levels

end Progress

/-! ## The page tables -/

lemma linkedEntry_eq (E : PageEntryApi) (e : U64) : linkedEntry E e = (hwAddr e != 0#64) := by
  rw [linkedEntry, E.isUnused_eq, E.addr_eq]
  by_cases he : e = 0#64
  · subst he
    rfl
  · simp [he]

/-- The frame of an entry, unless it is the one at address 0. -/
def clonedFrame (e : U64) : Option U64 := (mappedFrame e).filter (· != 0#64)

lemma clonedFrame_of_ne {e : U64} (h : hwAddr e ≠ 0#64) : clonedFrame e = some (hwAddr e) := by
  simp [clonedFrame, mappedFrame_of_ne (ne_zero_of_hwAddr h), h]

lemma clonedFrame_of_eq {e : U64} (h : hwAddr e = 0#64) : clonedFrame e = none := by
  rw [clonedFrame, mappedFrame]
  split_ifs
  · rfl
  · simp [h]

lemma hwAddr_hwAddr (e : U64) : hwAddr (hwAddr e) = hwAddr e := by
  rw [hwAddr, hwAddr, BitVec.and_assoc, BitVec.and_self]

section PageTables

variable {E : PageEntryOps} {Node : ℕ → U64 → Prop} {roots : Set ℕ} {vmm : VirtualMemoryManager}
  {c : ℕ} {s₀ s : TableMem}

/-- Clearing bit 0 makes an entry not present. -/
lemma present_updateFlags (f e : U64) :
    PageTableEntry.present (E.updateFlags (f &&& ~~~0x01#64 ||| 0x20#64) e) = false := by
  rw [PageTableEntry.present_eq, E.updateFlags_flags _ _ 0 (by decide)]
  simp

lemma present_set (phys f e : U64) :
    PageTableEntry.present (E.set phys (f &&& ~~~0x01#64) e) = false := by
  rw [PageTableEntry.present_eq, E.set_flags _ _ _ 0 (by decide)]
  simp

/-- `mark_page_cow` at the end of a walk that succeeds. -/
lemma markPageCow_eq (hs : VmmForest E Node roots vmm.pml4 s)
    {i j k l : Fin 512} {pt : ℕ} (hpt : x86.tableAt s.mem vmm.pml4 [i, j, k] = some pt)
    (hused : s.mem (x86.slot pt l) ≠ 0#64) :
    vmm.markPageCow E s (virtOf i j k l) = s.write (x86.slot pt l)
      (E.updateFlags (E.flags (s.mem (x86.slot pt l)) &&& ~~~0x01#64 ||| 0x20#64)
        (s.mem (x86.slot pt l))) := by
  have hwalk : vmm.walkPte E s (virtOf i j k l) = some (x86.slot pt l) := by
    rw [walkPte_eq_hwLeafSlot hs, hwLeafSlot, upperPath_virtOf, hpt, ptIndex_virtOf]
    rfl
  rw [markPageCow, editUsed, hwalk]
  simp [E.isUnused_eq, hused]

/-- One page: marked in the parent, and entered into the page table of the child at `ρ`. -/
lemma cloneLeaf (hs₀ : VmmForest E Node roots vmm.pml4 s₀)
    (h : Cloning Node roots vmm.pml4 c s₀ s) {k l : Fin 512} {ρ : Path} {oldPt t : ℕ}
    (hold : x86.tableAt s₀.mem vmm.pml4 [0, 0, k] = some oldPt) (hρ : ρ.length = 3)
    (ht : x86.tableAt s.mem c ρ = some t)
    (hframe : hwAddr (s₀.mem (x86.slot oldPt l)) ≠ 0#64) {s₁ s' : TableMem} {flags old : U64}
    (hs₁ : s₁ = vmm.markPageCow E s (virtOf 0 0 k l)) (hs' : s' = s₁.write (x86.slot t l)
      (E.set (E.addr (s.mem (x86.slot oldPt l))) (flags &&& ~~~0x01#64) old)) :
    Cloning Node roots vmm.pml4 c s₀ s' ∧ SubtreeOnly c ρ s s' ∧ x86.tableAt s'.mem c ρ = some t ∧
      (∀ i, i ≠ l → s'.mem (x86.slot t i) = s.mem (x86.slot t i)) ∧
      mappedFrame (s'.mem (x86.slot t l)) = clonedFrame (s₀.mem (x86.slot oldPt l)) := by
  have hparent := h.parentTree hs₀
  have hmarked := h.marked [0, 0, k] oldPt l rfl hold
  have hframe' : hwAddr (s.mem (x86.slot oldPt l)) ≠ 0#64 := by rwa [hmarked.hwAddr_eq]
  have hlive₀ := hs₀.forest.table_live _ hs₀.root [0, 0, k] oldPt le_rfl hold
  have hold' : x86.tableAt s.mem vmm.pml4 [0, 0, k] = some oldPt := by
    rw [h.tableAt_parent le_rfl, hold]
  rw [markPageCow_eq hparent hold' (ne_zero_of_hwAddr hframe')] at hs₁
  have hmark : Marked (s₀.mem (x86.slot oldPt l))
      (E.updateFlags (E.flags (s.mem (x86.slot oldPt l)) &&& ~~~0x01#64 ||| 0x20#64)
        (s.mem (x86.slot oldPt l))) :=
    .inr ⟨hframe, (E.updateFlags_addr _ _).trans hmarked.hwAddr_eq, present_updateFlags _ _⟩
  have h₁ : Cloning Node roots vmm.pml4 c s₀ s₁ := by
    rw [hs₁]
    exact h.mark hs₀ rfl hold hmark
  -- the mark is outside of the child
  have hout : ∀ (π : Path) u i, π.length ≤ 3 → x86.tableAt s.mem c π = some u →
      s₁.mem (x86.slot u i) = s.mem (x86.slot u i) := by
    intro π u i hπ hu
    rw [hs₁]
    refine h.write_other (h.live hlive₀) (h.child_live hπ hu) ?_ _
    rintro ⟨rfl, -⟩
    exact h.fresh π u hπ hu hlive₀
  have hsame : SubtreeOnly c ρ s s₁ := fun π u i hπ _ hu => hout π u i hπ hu
  have ht₁ : x86.tableAt s₁.mem c ρ = some t := by rw [hsame.tableAt hρ.le (.inr rfl), ht]
  have htlive := h₁.child_live hρ.le ht₁
  have hword : s'.mem (x86.slot t l) = E.set (E.addr (s.mem (x86.slot oldPt l)))
      (flags &&& ~~~0x01#64) old := by
    rw [hs']
    exact Function.update_self _ _ _
  refine ⟨?_, hsame.trans ?_, ?_, ?_, ?_⟩
  · rw [hs']
    exact h₁.fill hs₀ hρ ht₁ l (present_set _ _ _)
  · intro π u i hπ hoff hu
    rw [hs']
    refine h₁.write_other htlive (h₁.child_live hπ hu) ?_ _
    rintro ⟨rfl, -⟩
    obtain ⟨-, rfl⟩ := h₁.forest.unshared c (.inl rfl) c (.inl rfl) π ρ u hπ hρ.le hu ht₁
    exact hoff List.prefix_rfl
  · rw [hs']
    exact (RadixFormat.tableAt_write h₁.forest (.inl rfl) hρ ht₁ l _ (.inl rfl) hρ.le).trans ht₁
  · intro i hi
    rw [hs', h₁.write_other htlive htlive fun hsame => hi hsame.2]
    exact hout ρ t i hρ.le ht
  · have hset : hwAddr (s'.mem (x86.slot t l)) = hwAddr (s₀.mem (x86.slot oldPt l)) := by
      rw [hword, E.hwAddr_set, E.addr_eq, hwAddr_hwAddr, hmarked.hwAddr_eq]
    rw [mappedFrame_of_ne (ne_zero_of_hwAddr (by rwa [hset])), hset, clonedFrame_of_ne hframe]

/-- **The page tables of the clone.**  Wherever the new table is, it gets the pages of the parent
with the upper indices 0, 0 and `k`. -/
lemma clonePt_fills (hs₀ : VmmForest E Node roots vmm.pml4 s₀)
    {ρ : Path} (hρ : ρ.length = 3) (k : Fin 512) :
    Fills Node roots vmm.pml4 c s₀ ρ (vmm.clonePt E k)
      fun _ l => clonedFrame (x86.leafWord s₀.mem vmm.pml4 [0, 0, k] l) := by
  intro s t s' h ht hzero hrun
  simp only [clonePt, Option.bind_eq_bind, Option.bind_eq_some_iff] at hrun
  obtain ⟨pdpt, hpdpt, pd, hpd, oldPt, holdPt, hrun⟩ := hrun
  replace hpdpt := derefTable_eq_some hs₀ h (by decide) (rootTable s₀ vmm.pml4) hpdpt
  replace hpd := derefTable_eq_some hs₀ h (by decide) hpdpt hpd
  replace holdPt := derefTable_eq_some hs₀ h (by decide) hpd holdPt
  have hinv := cloneEach_all (P := fun done s₁ => Cloning Node roots vmm.pml4 c s₀ s₁ ∧
      SubtreeOnly c ρ s s₁ ∧ x86.tableAt s₁.mem c ρ = some t ∧
      (∀ l, l ∉ done → s₁.mem (x86.slot t l) = 0#64) ∧
      ∀ l ∈ done, mappedFrame (s₁.mem (x86.slot t l)) = clonedFrame (s₀.mem (x86.slot oldPt l))) ?_
    ⟨h, .refl c ρ s, ht, fun l _ => hzero l, fun l hl => absurd hl List.not_mem_nil⟩ hrun
  · obtain ⟨h', hout, ht', -, hdone⟩ := hinv
    refine ⟨h', hout, fun rest l hlen => ?_⟩
    have hrest : rest = [] := List.length_eq_zero_iff.mp (by omega)
    rw [hrest, List.append_nil, RadixFormat.leafWord_of_tableAt x86 ht',
      hdone l (List.mem_finRange l), ← RadixFormat.leafWord_of_tableAt x86 holdPt]
    rfl
  · rintro done l s₁ s₂ hl ⟨h₁, hout₁, ht₁, hzero₁, hdone₁⟩ hround
    have hmarked := h₁.marked _ oldPt l (by rfl) holdPt
    rw [linkedEntry_eq, hmarked.hwAddr_eq] at hround
    by_cases hframe : hwAddr (s₀.mem (x86.slot oldPt l)) = 0#64
    · rw [if_neg (by simp [hframe]), Option.some.injEq, Prod.mk.injEq] at hround
      obtain ⟨-, rfl⟩ := hround
      refine ⟨h₁, hout₁, ht₁, fun i hi => hzero₁ i fun hd => hi (List.mem_append_left _ hd),
        fun i hi => ?_⟩
      rw [List.mem_append, List.mem_singleton] at hi
      rcases hi with hi | rfl
      · exact hdone₁ i hi
      · rw [hzero₁ i hl, clonedFrame_of_eq hframe]
        rfl
    · rw [if_pos (by simpa using hframe), Option.some.injEq, Prod.mk.injEq] at hround
      obtain ⟨h₂, hout₂, ht₂, hrest, hnew⟩ :=
        cloneLeaf hs₀ h₁ holdPt hρ ht₁ hframe rfl hround.2.symm
      refine ⟨h₂, hout₁.trans hout₂, ht₂, fun i hi => ?_, fun i hi => ?_⟩
      · rw [List.mem_append, not_or, List.mem_singleton] at hi
        rw [hrest i hi.2]
        exact hzero₁ i hi.1
      · by_cases hil : i = l
        · rw [hil, hnew]
        · rw [List.mem_append, List.mem_singleton] at hi
          rw [hrest i hil]
          exact hdone₁ i (hi.resolve_right hil)

end PageTables

/-! ## The whole clone -/

/-- What `clone_pd` puts at the path `rest` below its table. -/
def clonedPd (s : TableMem) (p : ℕ) (j : Fin 512) : Path → Fin 512 → Option U64
  | [], _ => none
  | k :: _, l =>
    if HasTable s p [0, j, k] then clonedFrame (x86.leafWord s.mem p [0, 0, k] l) else none

/-- What `clone_pdpt` puts at the path `rest` below its table. -/
def clonedPdpt (s : TableMem) (p : ℕ) (i : Fin 512) : Path → Fin 512 → Option U64
  | [], _ => none
  | j :: rest, l => if HasTable s p [i, j] then clonedPd s p j rest l else none

/-- What the child has at the path `rest`. -/
def clonedPml4 (s : TableMem) (p : ℕ) : Path → Fin 512 → Option U64
  | [], _ => none
  | i :: rest, l => if HasTable s p [i] then clonedPdpt s p i rest l else none

section Whole

variable {E : PageEntryOps} {A : FrameAllocator} {Node : ℕ → U64 → Prop} {roots : Set ℕ}
  {vmm : VirtualMemoryManager} {c : ℕ} {s₀ : TableMem}
  (hs₀ : VmmForest E Node roots vmm.pml4 s₀)
  (hc : Node c = IsVmmEntry E)

include hs₀ hc

lemma clonePd_fills {ρ : Path} (hρ : ρ.length = 2) (j : Fin 512) :
    Fills Node roots vmm.pml4 c s₀ ρ (vmm.clonePd E A j) (clonedPd s₀ vmm.pml4 j) := by
  intro s t s' h ht hzero hrun
  simp only [clonePd, Option.bind_eq_bind, Option.bind_eq_some_iff] at hrun
  obtain ⟨pdpt, hpdpt, oldPd, hpd, hrun⟩ := hrun
  replace hpdpt := derefTable_eq_some hs₀ h (by decide) (rootTable s₀ vmm.pml4) hpdpt
  replace hpd := derefTable_eq_some hs₀ h (by decide) hpdpt hpd
  refine cloneTables_fills hs₀ hc (by omega) (by simp) hpd
    (fun k _ => clonePt_fills hs₀ (by simpa using hρ) k) (clonedPd s₀ vmm.pml4 j) ?_ ?_
    s t s' h ht hzero hrun
  · exact fun k rest l hlink => if_pos hlink
  · exact fun k rest l hlink => if_neg hlink

lemma clonePdpt_fills {ρ : Path} (hρ : ρ.length = 1) (i : Fin 512) :
    Fills Node roots vmm.pml4 c s₀ ρ (vmm.clonePdpt E A i) (clonedPdpt s₀ vmm.pml4 i) := by
  intro s t s' h ht hzero hrun
  simp only [clonePdpt, Option.bind_eq_bind, Option.bind_eq_some_iff] at hrun
  obtain ⟨oldPdpt, hpdpt, hrun⟩ := hrun
  replace hpdpt := derefTable_eq_some hs₀ h (by decide) (rootTable s₀ vmm.pml4) hpdpt
  refine cloneTables_fills hs₀ hc (by omega) (by simp) hpdpt
    (fun j _ => clonePd_fills hs₀ hc (by simpa using hρ) j) (clonedPdpt s₀ vmm.pml4 i) ?_ ?_
    s t s' h ht hzero hrun
  · exact fun j rest l hlink => if_pos hlink
  · exact fun j rest l hlink => if_neg hlink

lemma cloneTablesRecursive_fills :
    Fills Node roots vmm.pml4 c s₀ [] (fun t => vmm.cloneTablesRecursive E A 0 t)
      (clonedPml4 s₀ vmm.pml4) := by
  refine cloneTables_fills hs₀ hc (by decide) (by decide) (rootTable s₀ vmm.pml4)
    (fun i _ => clonePdpt_fills hs₀ hc (by rfl) i) (clonedPml4 s₀ vmm.pml4) ?_ ?_
  · exact fun i rest l hlink => if_pos hlink
  · exact fun i rest l hlink => if_neg hlink

end Whole

section Result

variable {E : PageEntryOps} {A : FrameAllocator} {vmm child : VirtualMemoryManager}
  {s s' : TableMem}
  (hs : OwnTree E vmm.pml4 s)
  (hclone : vmm.cloneAddressSpace E A s = some (.ok child, s'))

include hs hclone

/-- **The clone.**  Its root is a new table, and its pages are the ones that the four loops find. -/
lemma cloneAddressSpace_spec :
    Cloning (fun _ => IsVmmEntry E) {vmm.pml4} vmm.pml4 child.pml4 s s' ∧
      ∀ (π : Path) l, π.length = 3 →
        mappedFrame (x86.leafWord s'.mem child.pml4 π l) = clonedPml4 s vmm.pml4 π l := by
  rw [cloneAddressSpace] at hclone
  cases hnew : A.new s.live with
  | none => simp [hnew] at hclone
  | some c =>
    simp only [hnew, Option.map_eq_some_iff] at hclone
    obtain ⟨⟨answer, s₁⟩, hrun, hanswer⟩ := hclone
    cases answer with
    | error e => simp at hanswer
    | ok u =>
      simp only [Prod.mk.injEq, Except.ok.injEq] at hanswer
      obtain ⟨rfl, rfl⟩ := hanswer
      have hstart := Cloning.start hs (c := c) rfl (A.aligned _ _ hnew) (A.fresh _ _ hnew)
      obtain ⟨h, -, hpages⟩ := cloneTablesRecursive_fills hs rfl _ c s₁ hstart rfl
        (x86.zeroTable_self s.mem c) hrun
      exact ⟨h, fun π l hπ => by simpa using hpages π l (by simpa using hπ)⟩

/-- The parent has the mappings that it had. -/
lemma translate_parent (virt : U64) : vmm.translate E s' virt =
    vmm.translate E s virt := by
  obtain ⟨h, -⟩ := cloneAddressSpace_spec hs hclone
  rw [translate_eq (h.parentTree hs), translate_eq hs]
  exact (h.leafOf_marked virt).mappedFrame_eq

/-- The child has the pages that the loops find, which look for the third and the fourth table below
slot 0. -/
lemma translate_child (virt : U64) : child.translate E s' virt =
    if HasTable s vmm.pml4 [pml4Index virt] ∧ HasTable s vmm.pml4 [pml4Index virt, pdptIndex virt] ∧
        HasTable s vmm.pml4 [0, pdptIndex virt, pdIndex virt] then
      (vmm.translate E s (virtOf 0 0 (pdIndex virt) (ptIndex virt))).filter
        (· != 0#64)
    else none := by
  obtain ⟨h, hpages⟩ := cloneAddressSpace_spec hs hclone
  rw [translate_eq (h.childTree rfl), translate_eq hs, TableMem.leafOf, TableMem.leafOf,
    upperPath_virtOf, ptIndex_virtOf, hpages _ _ rfl]
  simp only [upperPath, clonedPml4, clonedPdpt, clonedPd, clonedFrame]
  split_ifs <;> tauto

end Result

/-- The pages of the address space are those that the clone gives the child: where the indices
`i, j, k` of a page lead to tables, with the third taken below slot 0 of the PML4, the page is the
one with indices `0, 0, k`. -/
def Mirrored (E : PageEntryApi) (vmm : VirtualMemoryManager) (s : TableMem) : Prop :=
  ∀ virt, vmm.translate E s virt =
    if HasTable s vmm.pml4 [pml4Index virt] ∧ HasTable s vmm.pml4 [pml4Index virt, pdptIndex virt] ∧
        HasTable s vmm.pml4 [0, pdptIndex virt, pdIndex virt] then
      (vmm.translate E s (virtOf 0 0 (pdIndex virt) (ptIndex virt))).filter (· != 0#64)
    else none

/-- An address space whose pages are all in the first gigabyte is one that is cloned as it is. -/
lemma mirrored_of_first_gigabyte {E : PageEntryApi} {vmm : VirtualMemoryManager} {s : TableMem}
    (hs : OwnTree E vmm.pml4 s) (htop : ∀ i, i ≠ 0 → s.mem (x86.slot vmm.pml4 i) = 0#64)
    (hsecond : ∀ pdpt, x86.tableAt s.mem vmm.pml4 [0] = some pdpt →
      ∀ j, j ≠ 0 → s.mem (x86.slot pdpt j) = 0#64)
    (hnull : 0 ∉ s.live) (hframe : ∀ t ∈ s.live, ∀ l, s.mem (x86.slot t l) ≠ 0#64 →
      hwAddr (s.mem (x86.slot t l)) ≠ 0#64) :
    Mirrored E vmm s := by
  have hfirst : ∀ i π t, x86.tableAt s.mem vmm.pml4 (i :: π) = some t → i = 0 := by
    intro i π t ht
    by_contra hi
    rw [RadixFormat.tableAt, htop i hi] at ht
    cases ht
  have hthen : ∀ j π t, x86.tableAt s.mem vmm.pml4 (0 :: j :: π) = some t → j = 0 := by
    intro j π t ht
    by_contra hj
    rw [← List.singleton_append, RadixFormat.tableAt_append, Option.bind_eq_some_iff] at ht
    obtain ⟨pdpt, hpdpt, ht⟩ := ht
    rw [RadixFormat.tableAt, hsecond pdpt hpdpt j hj] at ht
    cases ht
  have hlinked : ∀ π t, π.length ≤ 3 → x86.tableAt s.mem vmm.pml4 π = some t →
      HasTable s vmm.pml4 π := by
    intro π t hπ ht
    refine ⟨t, ht, ?_⟩
    rintro rfl
    exact hnull (hs.forest.table_live _ hs.root π 0 hπ ht)
  intro virt
  rw [translate_eq hs, translate_eq hs, TableMem.leafOf, TableMem.leafOf, upperPath_virtOf,
    ptIndex_virtOf, upperPath]
  cases ht : x86.tableAt s.mem vmm.pml4 [pml4Index virt, pdptIndex virt, pdIndex virt] with
  | none =>
    rw [RadixFormat.leafWord_of_none x86 ht, if_neg]
    · rfl
    · rintro ⟨⟨t₁, ht₁, -⟩, ⟨t₂, ht₂, -⟩, ⟨t₃, ht₃, -⟩⟩
      have hi := hfirst _ _ _ ht₁
      rw [hi] at ht ht₂
      rw [ht₃] at ht
      cases ht
  | some t =>
    have hi := hfirst _ _ _ ht
    rw [hi] at ht ⊢
    have hj := hthen _ _ _ ht
    rw [hj] at ht ⊢
    have hlong : ∀ π, π <+: [0, 0, pdIndex virt] → HasTable s vmm.pml4 π := by
      intro π hπ
      have hlen := hπ.length_le
      obtain ⟨rest, hrest⟩ := hπ
      rw [← hrest, RadixFormat.tableAt_append, Option.bind_eq_some_iff] at ht
      obtain ⟨u, hu, -⟩ := ht
      exact hlinked π u hlen hu
    rw [if_pos ⟨hlong _ (by simp), hlong _ (by simp), hlong _ (by simp)⟩,
      RadixFormat.leafWord_of_tableAt x86 ht]
    have hword := hframe t (hs.forest.table_live _ hs.root _ t le_rfl ht) (ptIndex virt)
    rw [mappedFrame]
    split_ifs with hzero
    · rfl
    · rw [Option.filter_some_pos]
      simpa using hword hzero

/-- A call that succeeds, when running it shows what it answers. -/
lemma exists_ok_of_any {ε α σ : Type*} {call : Option (Except ε α × σ)}
    {p : Except ε α × σ → α → Bool} (h : call.any (fun r => r.1.toOption.any (p r)) = true) :
    ∃ a s', call = some (.ok a, s') ∧ p (.ok a, s') a = true := by
  rw [Option.any_eq_true] at h
  obtain ⟨⟨answer, s'⟩, hcall, hanswer⟩ := h
  cases answer with
  | error e => cases hanswer
  | ok a => exact ⟨a, s', hcall, hanswer⟩

/-- One page, in the first gigabyte. -/
def oneRegion : VmmState :=
  (emptySpace.1.mapPage plainPageEntry bumpFrames emptySpace.2 0x1000#64 0x9000#64 3#64).2

lemma oneRegion_tree : OwnTree plainPageEntry 0x200000 oneRegion.2 :=
  (vmm_mapPage_spec _ _ (show TreeIn _ _ _ emptySpace.1.pml4 _ from emptySpace_tree _)
    fun _ _ _ => rfl).2.1

/-- A second page, in the second gigabyte. -/
def twoRegions : VmmState :=
  (oneRegion.1.mapPage plainPageEntry bumpFrames oneRegion.2 0x40002000#64 0xA000#64 3#64).2

end Masika
