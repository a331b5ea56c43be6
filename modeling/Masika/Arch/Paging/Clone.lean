import Masika.Arch.Paging.Refinement

/-!
# Cloning the current page tables

`clone_page_table` of `arch/paging.rs` copies the table that CR3 refers to, and the tables directly
below it; everything further down is shared.  The entry that links the copy of a table is made from
scratch: its present, writable and user bits are those of the *first entry of that table*, and not
those of the entry being cloned.

Nothing is assumed about the tree but that its tables lie in memory that is in use (`Walkable`):
entries may be absent, huge, or carry any flags, and since `addr` keeps the bits 4 to 11 a table may
begin anywhere inside a frame.

`clonePageTable_same_iff` says for which trees the result is walked like the original.
-/

namespace Masika

open PageTableEntry

/-! ## The code -/

/-- `for j in 0..ENTRY_COUNT { (*new_pt).set_entry(j, (*old_pt).entries[j]) }`. -/
def copyEntries (oldPt newPt : ℕ) (js : Path) (s : TableMem) : TableMem :=
  js.foldl (fun s j => s.write (x86.slot newPt j) (s.mem (x86.slot oldPt j))) s

/-- The entry for the copy at `newPt`, with the rights of the entry `first`. -/
def cloneLink (newPt : ℕ) (first : PageTableEntry) : PageTableEntry :=
  setUser (userAccessible first) (setWritable (writable first) (setPresent (present first)
    (setAddr (BitVec.ofNat 64 newPt) 0#64)))

section Operations

variable (B : BoxAllocator)

/-- A new table with the same entries. -/
def clonePtOrPd (oldPt : ℕ) (s : TableMem) : Option (PageTableEntry × TableMem) :=
  (B.newTable s).map fun (newPt, s) =>
    let s := copyEntries oldPt newPt (List.finRange 512) s
    (cloneLink newPt (s.mem (x86.slot oldPt 0)), s)

/-- The body of the loop of `clone_page_table`. -/
def cloneEntry (oldPml4 newPml4 : ℕ) (s : TableMem) (i : Fin 512) : Option TableMem :=
  let entry := s.mem (x86.slot oldPml4 i)
  if present entry && !hugePage entry then
    (clonePtOrPd B (addr entry).toNat s).map fun (clonedPt, s) =>
      s.write (x86.slot newPml4 i) clonedPt
  else some (s.write (x86.slot newPml4 i) entry)

/-- `clone_page_table`, when CR3 holds `oldPml4`. -/
def clonePageTable (oldPml4 : ℕ) (s : TableMem) : Option (ℕ × TableMem) := do
  let (newPml4, s) ← B.newTable s
  let s ← run (cloneEntry B oldPml4 newPml4) s (List.finRange 512)
  some (newPml4, s)

end Operations

/-! ## The entry made for a copy -/

lemma getLsbD_cloneLink (newPt : ℕ) (first : PageTableEntry) (j : ℕ) :
    (cloneLink newPt first).getLsbD j =
      if j = 2 then userAccessible first else if j = 1 then writable first
      else if j = 0 then present first
      else if 4 ≤ j ∧ j < 48 then (BitVec.ofNat 64 newPt).getLsbD j else false := by
  rw [cloneLink, getLsbD_setUser, getLsbD_setWritable, getLsbD_setPresent, getLsbD_setAddr,
    BitVec.getLsbD_zero]

/-- The three bits of an entry that decide who may pass. -/
def passBits (e : PageTableEntry) : Bool × Bool × Bool := (present e, writable e, userAccessible e)

lemma passBits_cloneLink (newPt : ℕ) (first : PageTableEntry) :
    passBits (cloneLink newPt first) = passBits first := by
  rw [passBits, present_eq, writable_eq, userAccessible_eq, getLsbD_cloneLink, getLsbD_cloneLink,
    getLsbD_cloneLink]
  rfl

lemma addr_cloneLink {newPt : ℕ} (hal : newPt % 4096 = 0) (hlow : newPt < 2 ^ 48)
    (first : PageTableEntry) : (addr (cloneLink newPt first)).toNat = newPt := by
  refine toNat_addr_of_bits hal hlow fun j hlo hhi => ?_
  have hj : j ≠ 2 ∧ j ≠ 1 ∧ j ≠ 0 := by omega
  rw [getLsbD_cloneLink]
  simp [hj, hlo, hhi]

/-! ## Memory in use -/

/-- The frame that an address lies in. -/
def frameBase (x : ℕ) : ℕ := x / 4096 * 4096

lemma frameBase_slot {t : ℕ} (hal : t % 4096 = 0) (i : Fin 512) : frameBase (x86.slot t i) = t := by
  have := i.isLt
  simp only [frameBase, x86]
  omega

/-- Every table that a walk from `root` can read lies in frames that are in use. -/
def Walkable (s : TableMem) (root : ℕ) : Prop :=
  ∀ π t i, π.length ≤ 3 → kernelFormat.tableAt s.mem root π = some t →
    frameBase (x86.slot t i) ∈ s.live

/-- What was in use in `s` is in use in `s'`, with the same contents. -/
structure LiveKept (s s' : TableMem) : Prop where
  live : s.live ⊆ s'.live
  mem : ∀ x, frameBase x ∈ s.live → s'.mem x = s.mem x

namespace LiveKept

lemma trans {s₁ s₂ s₃ : TableMem} (h : LiveKept s₁ s₂) (h' : LiveKept s₂ s₃) : LiveKept s₁ s₃ :=
  ⟨fun _ ht => h'.live (h.live ht), fun x hx => (h'.mem x (h.live hx)).trans (h.mem x hx)⟩

lemma newTable {B : BoxAllocator} {s s' : TableMem} {a : ℕ} (h : B.newTable s = some (a, s')) :
    LiveKept s s' ∧ a % 4096 = 0 ∧ a < 2 ^ 48 ∧ a ∉ s.live ∧ a ∈ s'.live := by
  rw [BoxAllocator.newTable, Option.map_eq_some_iff] at h
  obtain ⟨b, hb, hs⟩ := h
  obtain ⟨rfl, rfl⟩ := Prod.mk.inj hs
  have hal := B.aligned _ _ hb
  have hfresh := B.fresh _ _ hb
  refine ⟨⟨fun t ht => List.mem_cons_of_mem b ht, fun x hx => ?_⟩, hal, B.low _ _ hb, hfresh,
    List.mem_cons_self⟩
  have hout : x86.inTable b x = false := by
    simp only [x86, decide_eq_false_iff_not]
    rintro ⟨hle, hlt, -⟩
    have hframe : frameBase x = b := by
      rw [frameBase]
      omega
    exact hfresh (hframe ▸ hx)
  simp [RadixFormat.zeroTable, hout]

/-- Writes to a table that did not exist. -/
lemma write {s s' : TableMem} (h : LiveKept s s') {t : ℕ} (hal : t % 4096 = 0) (ht : t ∉ s.live)
    (i : Fin 512) (e : PageTableEntry) : LiveKept s (s'.write (x86.slot t i) e) := by
  refine ⟨h.live, fun x hx => ?_⟩
  have hne : x ≠ x86.slot t i := by
    rintro rfl
    rw [frameBase_slot hal] at hx
    exact ht hx
  exact (Function.update_of_ne hne _ _).trans (h.mem x hx)

end LiveKept

lemma write_slot_self (s : TableMem) (t : ℕ) (i : Fin 512) (e : PageTableEntry) :
    (s.write (x86.slot t i) e).mem (x86.slot t i) = e :=
  Function.update_self _ _ _

lemma write_slot_other {s : TableMem} {t u : ℕ} (ht : t % 4096 = 0) (hu : u % 4096 = 0)
    {i j : Fin 512} (hne : ¬ (u = t ∧ j = i)) (e : PageTableEntry) :
    (s.write (x86.slot t i) e).mem (x86.slot u j) = s.mem (x86.slot u j) :=
  Function.update_of_ne (fun h => hne (x86.slot_eq hu ht h)) _ _

/-- The copy of a table outside of the new one. -/
lemma copyEntries_spec {oldPt newPt : ℕ} (hal : newPt % 4096 = 0)
    (hapart : ∀ j, frameBase (x86.slot oldPt j) ≠ newPt) :
    ∀ (js : Path) (s : TableMem), (copyEntries oldPt newPt js s).live = s.live ∧
      (∀ x, frameBase x ≠ newPt → (copyEntries oldPt newPt js s).mem x = s.mem x) ∧
      ∀ j, (j ∈ js →
          (copyEntries oldPt newPt js s).mem (x86.slot newPt j) = s.mem (x86.slot oldPt j)) ∧
        (j ∉ js →
          (copyEntries oldPt newPt js s).mem (x86.slot newPt j) = s.mem (x86.slot newPt j)) := by
  intro js
  induction js with
  | nil => exact fun s => ⟨rfl, fun _ _ => rfl, fun j => by simp [copyEntries]⟩
  | cons i js ih =>
    intro s
    obtain ⟨hlive, hmem, hcopy⟩ := ih (s.write (x86.slot newPt i) (s.mem (x86.slot oldPt i)))
    have hout : ∀ x, frameBase x ≠ newPt →
        (s.write (x86.slot newPt i) (s.mem (x86.slot oldPt i))).mem x = s.mem x := by
      intro x hx
      refine Function.update_of_ne ?_ _ _
      rintro rfl
      exact hx (frameBase_slot hal i)
    refine ⟨hlive, fun x hx => (hmem x hx).trans (hout x hx),
      fun j => ⟨fun hj => ?_, fun hj => ?_⟩⟩
    · by_cases hjs : j ∈ js
      · exact ((hcopy j).1 hjs).trans (hout _ (hapart j))
      · obtain rfl : j = i := (List.mem_cons.mp hj).resolve_right hjs
        exact ((hcopy j).2 hjs).trans (write_slot_self ..)
    · rw [List.mem_cons, not_or] at hj
      exact ((hcopy j).2 hj.2).trans (write_slot_other hal hal (fun h => hj.1 h.2) _)

/-! ## What the loop has done -/

/-- The entry `e'` of the new PML4 does what the entry `e` of the old one asks for. -/
def ClonedAs (s s' : TableMem) (newPml4 : ℕ) (e e' : PageTableEntry) : Prop :=
  if present e && !hugePage e then
    ∃ t, (t ∈ s'.live ∧ t ∉ s.live ∧ t ≠ newPml4 ∧ t % 4096 = 0 ∧ t < 2 ^ 48) ∧
      e' = cloneLink t (s.mem (x86.slot (addr e).toNat 0)) ∧
      ∀ j, s'.mem (x86.slot t j) = s.mem (x86.slot (addr e).toNat j)
  else e' = e

/-- The loop has made the rounds `done`. -/
structure Rounds (s : TableMem) (oldPml4 newPml4 : ℕ) (done : Path) (s' : TableMem) :
    Prop where
  keeps : LiveKept s s'
  new_live : newPml4 ∈ s'.live
  entries : ∀ i ∈ done,
    ClonedAs s s' newPml4 (s.mem (x86.slot oldPml4 i)) (s'.mem (x86.slot newPml4 i))

section Loop

variable {B : BoxAllocator} {s s₁ s₂ : TableMem} {oldPml4 newPml4 : ℕ} {done : Path}

/-- Entries made earlier stay as they are, as long as nobody touches their tables. -/
lemma ClonedAs.mono {e e' : PageTableEntry} (h : ClonedAs s s₁ newPml4 e e')
    (hlive : s₁.live ⊆ s₂.live) (hmem : ∀ t ∈ s₁.live, t ≠ newPml4 → t % 4096 = 0 → ∀ j,
      s₂.mem (x86.slot t j) = s₁.mem (x86.slot t j)) : ClonedAs s s₂ newPml4 e e' := by
  rw [ClonedAs] at h ⊢
  split_ifs at h ⊢ with hclone
  · obtain ⟨t, ⟨ht, hfresh, hne, hal, hlow⟩, hlink, hcopy⟩ := h
    exact ⟨t, ⟨hlive ht, hfresh, hne, hal, hlow⟩, hlink,
      fun j => (hmem t ht hne hal j).trans (hcopy j)⟩
  · exact h

/-- New tables beside the ones that exist. -/
lemma Rounds.mono (hal : newPml4 % 4096 = 0) (h : Rounds s oldPml4 newPml4 done s₁)
    (hkeeps : LiveKept s₁ s₂) : Rounds s oldPml4 newPml4 done s₂ := by
  have hmem : ∀ t ∈ s₁.live, t % 4096 = 0 → ∀ j, s₂.mem (x86.slot t j) = s₁.mem (x86.slot t j) :=
    fun t ht htal j => hkeeps.mem _ (by rwa [frameBase_slot htal])
  refine ⟨h.keeps.trans hkeeps, hkeeps.live h.new_live, fun i hi => ?_⟩
  rw [hmem newPml4 h.new_live hal]
  exact (h.entries i hi).mono hkeeps.live fun t ht _ htal j => hmem t ht htal j

/-- The last statement of a round: `(*new_pml4).set_entry(i, ..)`. -/
lemma Rounds.setEntry (hal : newPml4 % 4096 = 0) (hfresh : newPml4 ∉ s.live) {i : Fin 512}
    {e : PageTableEntry} (h : Rounds s oldPml4 newPml4 done s₁)
    (he : ClonedAs s s₁ newPml4 (s.mem (x86.slot oldPml4 i)) e) :
    Rounds s oldPml4 newPml4 (done ++ [i]) (s₁.write (x86.slot newPml4 i) e) := by
  have hmem : ∀ t ∈ s₁.live, t ≠ newPml4 → t % 4096 = 0 → ∀ j,
      (s₁.write (x86.slot newPml4 i) e).mem (x86.slot t j) = s₁.mem (x86.slot t j) :=
    fun t _ hne htal j => write_slot_other hal htal (fun hsame => hne hsame.1) e
  refine ⟨h.keeps.write hal hfresh i e, h.new_live, fun m hm => ?_⟩
  by_cases hmi : m = i
  · rw [hmi, write_slot_self]
    exact he.mono (fun _ ht => ht) hmem
  · rw [write_slot_other hal hal fun hsame => hmi hsame.2]
    rw [List.mem_append, List.mem_singleton] at hm
    exact (h.entries m (hm.resolve_right hmi)).mono (fun _ ht => ht) hmem

/-- **The copy of one table**, read from memory that was in use before the clone. -/
lemma clonePtOrPd_spec {oldPt : ℕ} {e : PageTableEntry} (hkeeps : LiveKept s s₁)
    (hread : ∀ j, frameBase (x86.slot oldPt j) ∈ s.live)
    (h : clonePtOrPd B oldPt s₁ = some (e, s₂)) : LiveKept s₁ s₂ ∧
      ∃ t, (t ∈ s₂.live ∧ t ∉ s₁.live ∧ t % 4096 = 0 ∧ t < 2 ^ 48) ∧
        e = cloneLink t (s.mem (x86.slot oldPt 0)) ∧
        ∀ j, s₂.mem (x86.slot t j) = s.mem (x86.slot oldPt j) := by
  rw [clonePtOrPd, Option.map_eq_some_iff] at h
  obtain ⟨⟨t, s'⟩, hnew, hresult⟩ := h
  obtain ⟨hk, hal, hlow, hfresh, ht⟩ := LiveKept.newTable hnew
  have hapart : ∀ j, frameBase (x86.slot oldPt j) ≠ t := fun j heq =>
    hfresh (heq ▸ hkeeps.live (hread j))
  have hold : ∀ j, s'.mem (x86.slot oldPt j) = s.mem (x86.slot oldPt j) := fun j =>
    (hkeeps.trans hk).mem _ (hread j)
  obtain ⟨hlive, hmem, hcopy⟩ := copyEntries_spec hal hapart (List.finRange 512) s'
  obtain ⟨rfl, rfl⟩ := Prod.mk.inj hresult
  refine ⟨⟨?_, fun x hx => ?_⟩, t, ⟨?_, hfresh, hal, hlow⟩, ?_, fun j => ?_⟩
  · rw [hlive]
    exact hk.live
  · rw [hmem x fun heq => hfresh (heq ▸ hx)]
    exact hk.mem x hx
  · rwa [hlive]
  · rw [hmem _ (hapart 0), hold]
  · rw [(hcopy j).1 (List.mem_finRange j), hold]

/-- **One round.** -/
lemma cloneEntry_rounds (hwalk : Walkable s oldPml4) (hal : newPml4 % 4096 = 0)
    (hfresh : newPml4 ∉ s.live) {i : Fin 512} (h : Rounds s oldPml4 newPml4 done s₁)
    (hround : cloneEntry B oldPml4 newPml4 s₁ i = some s₂) :
    Rounds s oldPml4 newPml4 (done ++ [i]) s₂ := by
  have hentry : s₁.mem (x86.slot oldPml4 i) = s.mem (x86.slot oldPml4 i) :=
    h.keeps.mem _ (hwalk [] oldPml4 i (by simp) rfl)
  simp only [cloneEntry, hentry] at hround
  split_ifs at hround with hclone
  · rw [Option.map_eq_some_iff] at hround
    obtain ⟨⟨e, s'⟩, hcopy, rfl⟩ := hround
    have hpresent : present (s.mem (x86.slot oldPml4 i)) = true :=
      (Bool.and_eq_true_iff.mp hclone).1
    have hread : ∀ j,
        frameBase (x86.slot (addr (s.mem (x86.slot oldPml4 i))).toNat j) ∈ s.live := by
      intro j
      refine hwalk [i] _ j (by simp) ?_
      simp [RadixFormat.tableAt, kernelFormat, nextTable, hpresent]
    obtain ⟨hkeeps, t, ⟨ht, htfresh, htal, htlow⟩, hlink, hwords⟩ :=
      clonePtOrPd_spec h.keeps hread hcopy
    refine (h.mono hal hkeeps).setEntry hal hfresh ?_
    rw [ClonedAs, if_pos hclone]
    refine ⟨t, ⟨ht, fun hs => htfresh (h.keeps.live hs), ?_, htal, htlow⟩, hlink, hwords⟩
    rintro rfl
    exact htfresh h.new_live
  · rw [Option.some.injEq] at hround
    subst hround
    refine h.setEntry hal hfresh ?_
    rw [ClonedAs, if_neg hclone]

/-- **The whole loop.** -/
lemma clonePageTable_rounds (hwalk : Walkable s oldPml4)
    (h : clonePageTable B oldPml4 s = some (newPml4, s₁)) :
    Rounds s oldPml4 newPml4 (List.finRange 512) s₁ := by
  simp only [clonePageTable, Option.bind_eq_bind, Option.bind_eq_some_iff, Option.some.injEq,
    Prod.mk.injEq] at h
  obtain ⟨⟨a, s'⟩, hnew, s'', hloop, rfl, rfl⟩ := h
  obtain ⟨hkeeps, hal, -, hfresh, ha⟩ := LiveKept.newTable hnew
  have hstart : Rounds s oldPml4 a [] s' :=
    ⟨hkeeps, ha, fun i hi => absurd hi List.not_mem_nil⟩
  have hall := run_history (P := Rounds s oldPml4 a)
    (fun done i s₁ s₂ hr hround => cloneEntry_rounds hwalk hal hfresh hr hround) hstart hloop
  rwa [List.nil_append] at hall

end Loop

/-! ## Walking the result -/

/-- `translate_virt_to_phys` in terms of the word at the end of the walk, whatever the tree. -/
lemma translateVirtToPhys_eq_leafWord (pml4 : ℕ) (s : TableMem) (virt : U64) :
    translateVirtToPhys pml4 s virt =
      let e := kernelFormat.leafWord s.mem pml4 (upperPath virt) (ptIndex virt)
      if present e then some ((addr e &&& ~~~0xFFF#64) ||| (virt &&& 0xFFF#64)) else none := by
  rw [translateVirtToPhys, walkPt_eq_tableAt]
  cases ht : kernelFormat.tableAt s.mem pml4 (upperPath virt) with
  | none =>
    rw [RadixFormat.leafWord_of_none kernelFormat ht]
    rfl
  | some t =>
    rw [RadixFormat.leafWord_of_tableAt kernelFormat ht]
    rfl

/-- A walk from `root'` in `s'` and one from `root` in `s` end alike for every address: mapped or
not, with the same physical address, and with the same bits in the entry of the PML4. -/
def WalkedAlike (s : TableMem) (root : ℕ) (s' : TableMem) (root' : ℕ) : Prop :=
  ∀ virt, translateVirtToPhys root' s' virt = translateVirtToPhys root s virt ∧
    passBits (s'.mem (x86.slot root' (pml4Index virt))) =
      passBits (s.mem (x86.slot root (pml4Index virt)))

/-- Every table below the PML4 has a first entry with the rights of the entry that links it. -/
def FirstEntriesAgree (s : TableMem) (root : ℕ) : Prop :=
  ∀ i, present (s.mem (x86.slot root i)) = true → hugePage (s.mem (x86.slot root i)) = false →
    passBits (s.mem (x86.slot (addr (s.mem (x86.slot root i))).toNat 0)) =
      passBits (s.mem (x86.slot root i))

section Result

variable {B : BoxAllocator} {s s' : TableMem} {oldPml4 newPml4 : ℕ}

/-- Below the first level the clone is the original. -/
lemma LiveKept.leafWord_eq (hkeeps : LiveKept s s') (hwalk : Walkable s oldPml4) {i : Fin 512}
    {π : Path} (hπ : π.length ≤ 2) {t : ℕ}
    (ht : nextTable (s.mem (x86.slot oldPml4 i)) = some t) (l : Fin 512) :
    kernelFormat.leafWord s'.mem t π l = kernelFormat.leafWord s.mem t π l := by
  refine kernelFormat.leafWord_congr (fun ρ u j hρ hu => hkeeps.mem _ ?_) l
  have hlen := hρ.length_le
  refine hwalk (i :: ρ) u j (by simp only [List.length_cons]; omega) ?_
  rw [RadixFormat.tableAt]
  exact (congrArg (Option.bind · _) ht).trans hu

/-- The same word is at the end of both walks, when the entry of the new PML4 has the bits of the
old one. -/
lemma ClonedAs.leafWord_eq (hkeeps : LiveKept s s') (hwalk : Walkable s oldPml4) {i j k : Fin 512}
    (h : ClonedAs s s' newPml4 (s.mem (x86.slot oldPml4 i)) (s'.mem (x86.slot newPml4 i)))
    (hbits : present (s'.mem (x86.slot newPml4 i)) = present (s.mem (x86.slot oldPml4 i)))
    (l : Fin 512) :
    kernelFormat.leafWord s'.mem newPml4 [i, j, k] l =
      kernelFormat.leafWord s.mem oldPml4 [i, j, k] l := by
  have hdecode : ∀ e, kernelFormat.decode e = nextTable e := fun _ => rfl
  have hslot : kernelFormat.slot = x86.slot := rfl
  rw [ClonedAs] at h
  rw [RadixFormat.leafWord_cons, RadixFormat.leafWord_cons, hdecode, hdecode, hslot]
  split_ifs at h with hclone
  · obtain ⟨t, ⟨-, -, -, hal, hlow⟩, hlink, hwords⟩ := h
    have hpresent : present (s.mem (x86.slot oldPml4 i)) = true :=
      (Bool.and_eq_true_iff.mp hclone).1
    have hold : nextTable (s.mem (x86.slot oldPml4 i)) =
        some (addr (s.mem (x86.slot oldPml4 i))).toNat := by
      rw [nextTable, if_pos hpresent]
    have hnew : nextTable (s'.mem (x86.slot newPml4 i)) = some t := by
      rw [nextTable, if_pos (hbits.trans hpresent), hlink, addr_cloneLink hal hlow]
    rw [hold, hnew]
    simp only
    -- one level further down the words are the ones that were copied
    rw [RadixFormat.leafWord_cons, RadixFormat.leafWord_cons, hdecode, hdecode, hslot, hwords]
    cases hnext : nextTable (s.mem (x86.slot (addr (s.mem (x86.slot oldPml4 i))).toNat j)) with
    | none => rfl
    | some u =>
      refine kernelFormat.leafWord_congr (fun ρ v m hρ hv => hkeeps.mem _ ?_) l
      have hlen := hρ.length_le
      have hshort : (i :: j :: ρ).length ≤ 3 := by
        simp only [List.length_cons, List.length_nil] at hlen ⊢
        omega
      refine hwalk (i :: j :: ρ) v m hshort ?_
      simp only [RadixFormat.tableAt, hdecode, hslot, hold, hnext, Option.bind_some, hv]
  · rw [h]
    cases hnext : nextTable (s.mem (x86.slot oldPml4 i)) with
    | none => rfl
    | some t => exact hkeeps.leafWord_eq hwalk (by simp) hnext l

end Result

/-- **A clone is walked like the original exactly when the first entries agree.** -/
theorem clonePageTable_same_iff {B : BoxAllocator} {s s' : TableMem} {oldPml4 newPml4 : ℕ}
    (hwalk : Walkable s oldPml4) (h : clonePageTable B oldPml4 s = some (newPml4, s')) :
    WalkedAlike s oldPml4 s' newPml4 ↔ FirstEntriesAgree s oldPml4 := by
  have hrounds := clonePageTable_rounds hwalk h
  have hentry := fun i => hrounds.entries i (List.mem_finRange i)
  constructor
  · intro halike i hpresent hhuge
    have hbits := (halike (virtOf i 0 0 0)).2
    have hi : pml4Index (virtOf i 0 0 0) = i := (List.cons.inj (upperPath_virtOf i 0 0 0)).1
    have hcloned := hentry i
    rw [ClonedAs, if_pos (by simp [hpresent, hhuge])] at hcloned
    obtain ⟨t, -, hlink, -⟩ := hcloned
    rwa [hi, hlink, passBits_cloneLink] at hbits
  · intro hagree virt
    have hbits : passBits (s'.mem (x86.slot newPml4 (pml4Index virt))) =
        passBits (s.mem (x86.slot oldPml4 (pml4Index virt))) := by
      have hcloned := hentry (pml4Index virt)
      rw [ClonedAs] at hcloned
      split_ifs at hcloned with hclone
      · obtain ⟨t, -, hlink, -⟩ := hcloned
        rw [Bool.and_eq_true_iff, Bool.not_eq_true'] at hclone
        rw [hlink, passBits_cloneLink]
        exact hagree _ hclone.1 hclone.2
      · rw [hcloned]
    refine ⟨?_, hbits⟩
    rw [translateVirtToPhys_eq_leafWord, translateVirtToPhys_eq_leafWord, upperPath,
      (hentry _).leafWord_eq hrounds.keeps hwalk (congrArg Prod.fst hbits)]

/-- The trees that the kernel builds lie in memory in use. -/
lemma walkable_of_kernelForest {Node : ℕ → U64 → Prop} {roots : Set ℕ} {pml4 : ℕ} {s : TableMem}
    (hs : KernelForest Node roots pml4 s) : Walkable s pml4 := by
  intro π t i hπ ht
  have hwalk : kernelFormat.tableAt s.mem pml4 π = x86.tableAt s.mem pml4 π := by
    refine x86.tableAt_congr_format (G := kernelFormat) rfl fun ρ j u hρ hu => ?_
    have hlen := hρ.length_le
    simp only [List.length_append, List.length_singleton] at hlen
    exact (hs.node (by omega) hu j).nextTable_eq
  rw [hwalk] at ht
  have hlive := hs.forest.table_live pml4 hs.root π t hπ ht
  rwa [frameBase_slot (hs.forest.aligned t hlive)]

/-- The kernel tables with one page, at `virt`. -/
def pageAt (virt : U64) : TableMem :=
  (mapPage bumpBox 0x1000 (bootTables (fun _ => 0#64) 0x1000) virt 0x9000#64 3#64).getD
    (bootTables (fun _ => 0#64) 0x1000)

lemma pageAt_tables (virt : U64) : KernelTables 0x1000 (pageAt virt) := by
  have hboot : KernelTables 0x1000 (bootTables (fun _ => 0#64) 0x1000) :=
    bootTables_forest _ (by decide)
  rw [pageAt]
  cases hmap : mapPage bumpBox 0x1000 (bootTables (fun _ => 0#64) 0x1000) virt 0x9000#64 3#64 with
  | none => exact hboot
  | some s => exact (mapPage_spec hboot hmap).1

/-! ## Room for a clone -/

/-- `bumpBox` can make `k` more tables: it has passed those that exist. -/
def Room (k : ℕ) (s : TableMem) : Prop :=
  s.live.length + k ≤ 2 ^ 30 ∧ ∀ t ∈ s.live, t < 0x200000 + 4096 * s.live.length

section Room

variable {k : ℕ} {s : TableMem}

lemma newTable_of_room (h : Room (k + 1) s) :
    ∃ a s', bumpBox.newTable s = some (a, s') ∧ Room k s' := by
  obtain ⟨hlength, hpassed⟩ := h
  have hnew : bumpAddress s.live = some (0x200000 + 4096 * s.live.length) := by
    rw [bumpAddress, Option.filter_eq_some_iff, decide_eq_true_eq]
    exact ⟨rfl, fun hin => Nat.lt_irrefl _ (hpassed _ hin), by omega⟩
  refine ⟨_, _, congrArg (Option.map _) hnew, ?_, fun t ht => ?_⟩
  · rw [List.length_cons]
    omega
  · rw [List.length_cons]
    rcases List.mem_cons.mp ht with rfl | ht
    · omega
    · have := hpassed t ht
      omega

lemma copyEntries_live (oldPt newPt : ℕ) (js : Path) :
    ∀ s : TableMem, (copyEntries oldPt newPt js s).live = s.live := by
  induction js with
  | nil => exact fun s => rfl
  | cons j js ih => exact fun s => ih (s.write (x86.slot newPt j) (s.mem (x86.slot oldPt j)))

lemma cloneEntry_of_room (h : Room (k + 1) s) (oldPml4 newPml4 : ℕ) (i : Fin 512) :
    ∃ s', cloneEntry bumpBox oldPml4 newPml4 s i = some s' ∧ Room k s' := by
  rw [cloneEntry]
  split_ifs
  · obtain ⟨a, s', hnew, hroom⟩ := newTable_of_room h
    rw [clonePtOrPd, hnew, Option.map_some, Option.map_some]
    refine ⟨_, rfl, ?_⟩
    simp only [Room, TableMem.write, copyEntries_live]
    exact hroom
  · exact ⟨_, rfl, (Nat.le_succ _).trans h.1, h.2⟩

lemma cloneEntries_of_room (oldPml4 newPml4 : ℕ) (is : Path) :
    ∀ s, Room is.length s → ∃ s', run (cloneEntry bumpBox oldPml4 newPml4) s is = some s' := by
  induction is with
  | nil => exact fun s _ => ⟨s, rfl⟩
  | cons i is ih =>
    intro s hs
    obtain ⟨s₁, hround, hs₁⟩ := cloneEntry_of_room hs oldPml4 newPml4 i
    obtain ⟨s', hrest⟩ := ih s₁ hs₁
    exact ⟨s', run_cons_eq_some.mpr ⟨s₁, hround, hrest⟩⟩

/-- **With room for all tables the clone is made.** -/
lemma clonePageTable_of_room (h : Room 513 s) (oldPml4 : ℕ) :
    ∃ newPml4 s', clonePageTable bumpBox oldPml4 s = some (newPml4, s') := by
  obtain ⟨newPml4, s₁, hnew, hs₁⟩ := newTable_of_room h
  rw [← List.length_finRange (n := 512)] at hs₁
  obtain ⟨s', hrun⟩ := cloneEntries_of_room oldPml4 newPml4 (List.finRange 512) s₁ hs₁
  refine ⟨newPml4, s', ?_⟩
  simp only [clonePageTable, hnew, Option.bind_eq_bind, Option.bind_some, hrun]

end Room

/-- A table whose first entry is empty is not reached in the clone. -/
lemma clonePageTable_drops {B : BoxAllocator} {s s' : TableMem} {oldPml4 newPml4 : ℕ} {virt : U64}
    (hwalk : Walkable s oldPml4) (h : clonePageTable B oldPml4 s = some (newPml4, s'))
    (hpresent : present (s.mem (x86.slot oldPml4 (pml4Index virt))) = true)
    (hhuge : hugePage (s.mem (x86.slot oldPml4 (pml4Index virt))) = false)
    (hfirst : present (s.mem (x86.slot (s.tablePtr (x86.slot oldPml4 (pml4Index virt))) 0)) =
      false) : translateVirtToPhys newPml4 s' virt = none := by
  have hcloned := (clonePageTable_rounds hwalk h).entries (pml4Index virt) (List.mem_finRange _)
  rw [ClonedAs, if_pos (by simp [hpresent, hhuge])] at hcloned
  obtain ⟨t, -, hlink, -⟩ := hcloned
  have habsent : present (s'.mem (x86.slot newPml4 (pml4Index virt))) = false := by
    rw [hlink]
    exact (congrArg Prod.fst (passBits_cloneLink t _)).trans hfirst
  have hstop : kernelFormat.tableAt s'.mem newPml4 (upperPath virt) = none := by
    simp [upperPath, RadixFormat.tableAt, kernelFormat, nextTable, habsent]
  rw [translateVirtToPhys_eq_leafWord, RadixFormat.leafWord_of_none kernelFormat hstop]
  rfl

/-- A page in the first gigabyte of the last slot of the PML4: the first entry of its PDPT is the
one that leads to it. -/
theorem clonePageTable_same_iff_first_entry : ∃ newPml4 s',
    clonePageTable bumpBox 0x1000 (pageAt 0xFFFFFF8000005000#64) = some (newPml4, s') ∧
      WalkedAlike (pageAt 0xFFFFFF8000005000#64) 0x1000 s' newPml4 := by
  have hroom : Room 513 (pageAt 0xFFFFFF8000005000#64) := by
    unfold Room
    decide +kernel
  obtain ⟨newPml4, s', h⟩ := clonePageTable_of_room hroom 0x1000
  have hwalk := walkable_of_kernelForest (pageAt_tables 0xFFFFFF8000005000#64)
  refine ⟨newPml4, s', h, (clonePageTable_same_iff hwalk h).mpr ?_⟩
  unfold FirstEntriesAgree
  decide +kernel

/-- A page in the second gigabyte of that slot, whose PDPT has an empty first entry: it is not
mapped in the clone. -/
theorem clone_drops_second_gigabyte : ∃ newPml4 s',
    clonePageTable bumpBox 0x1000 (pageAt 0xFFFFFF8040005000#64) = some (newPml4, s') ∧
      translateVirtToPhys 0x1000 (pageAt 0xFFFFFF8040005000#64) 0xFFFFFF8040005000#64 =
        some 0x9000#64 ∧
      translateVirtToPhys newPml4 s' 0xFFFFFF8040005000#64 = none := by
  have hroom : Room 513 (pageAt 0xFFFFFF8040005000#64) := by
    unfold Room
    decide +kernel
  obtain ⟨newPml4, s', h⟩ := clonePageTable_of_room hroom 0x1000
  have hwalk := walkable_of_kernelForest (pageAt_tables 0xFFFFFF8040005000#64)
  refine ⟨newPml4, s', h, by decide +kernel, clonePageTable_drops hwalk h ?_ ?_ ?_⟩
  · decide +kernel
  · decide +kernel
  · decide +kernel

end Masika
