import Masika.Core.Runs
import Masika.Memory.Virtual.Clone

/-!
# After a clone

A parent and its clone share the frames of the parent.  `clone_pt` means the two to have their own
contents from then on: it marks the pages of the parent and of the child, so that the first write
faults and `handle_cow_fault` makes a copy.  But it marks them by clearing the *present* bit.  So
the first access faults with bit 0 of the error code clear, and `handle_page_fault` takes that for a
page that was never there and maps a new frame.

* `Fork.access` is one attempt to load or store a word: the processor performs it or reports a page
  fault, which goes to `handle_page_fault` of the space that made the attempt.
* `Views` is what the words of each space should be: those at the time of the clone, changed by the
  stores of that space (`Views.after`).
* `Separate` is the invariant: the frames of the present pages are in use, are not tables, are not
  shared between the spaces, and hold what the views say.
* An access to a page that is present keeps it, a store that is answered with a copy included; an
  access to a page that is not present keeps it when the new frame happens to hold the right words
  (`Refills`).

The Accessed and Dirty bits, which the processor sets in the entries that it uses, are left out, and
so is the user bit.
-/

namespace Masika

open PageTableEntry VirtualMemoryManager

/-! ## Accesses -/

/-- The two address spaces. -/
inductive Space where
  | parent
  | child
deriving DecidableEq, Repr

/-- An address space and its clone, in one memory. -/
structure Fork where
  parent : VirtualMemoryManager
  child : VirtualMemoryManager
  mem : TableMem

/-- An attempt to load the word at `virt`, or to change it with `store`.  A store to some of the
bytes of the word is a change that keeps the others.  `frames` answers `alloc_pages(1)`. -/
structure MemAccess where
  space : Space
  virt : U64
  store : Option (U64 → U64)
  frames : FrameAllocator

/-- Which of the 512 words of its page an address lies in. -/
def wordIndex (virt : U64) : Fin 512 := ⟨virt.toNat / 8 % 512, Nat.mod_lt _ (by decide)⟩

/-- The frame that an entry refers to. -/
def frameAddr (e : PageTableEntry) : ℕ := (hwAddr e).toNat

/-- The processor does not perform the access.  The links above the page tables are all writable. -/
def faults (e : PageTableEntry) (isStore : Bool) : Bool := !present e || (isStore && !writable e)

/-- Bit 0 is the present bit of the entry, bit 1 is set for a store. -/
def faultCode (e : PageTableEntry) (isStore : Bool) : U64 :=
  (if present e then 1#64 else 0#64) ||| (if isStore then 2#64 else 0#64)

namespace Fork

/-- The manager of a space. -/
def vmm (st : Fork) : Space → VirtualMemoryManager
  | .parent => st.parent
  | .child => st.child

/-- The entry at the end of the walk for `virt`. -/
def leaf (st : Fork) (who : Space) (virt : U64) : PageTableEntry :=
  st.mem.leafOf (st.vmm who).pml4 virt

/-- Where the word at `virt` is in memory, if the page is present. -/
def wordAddr (st : Fork) (who : Space) (virt : U64) : ℕ :=
  x86.slot (frameAddr (st.leaf who virt)) (wordIndex virt)

/-- What a load gets that does not fault. -/
def load (st : Fork) (who : Space) (virt : U64) : Option U64 :=
  if present (st.leaf who virt) then some (st.mem.mem (st.wordAddr who virt)) else none

/-- A space after a call, with the memory that it leaves. -/
def set (st : Fork) (new : VmmState) : Space → Fork
  | .parent => ⟨new.1, st.child, new.2⟩
  | .child => ⟨st.parent, new.1, new.2⟩

/-- The word at `virt` is changed. -/
def store (st : Fork) (who : Space) (virt : U64) (f : U64 → U64) : Fork :=
  { st with mem := st.mem.write (st.wordAddr who virt) (f (st.mem.mem (st.wordAddr who virt))) }

/-- A fault is handled first. -/
def access (E : PageEntryOps) (st : Fork) (a : MemAccess) : Fork :=
  if faults (st.leaf a.space a.virt) a.store.isSome then
    st.set (handlePageFault E a.frames (st.vmm a.space) st.mem a.virt
      (faultCode (st.leaf a.space a.virt) a.store.isSome)).2 a.space
  else
    match a.store with
    | none => st
    | some f => st.store a.space a.virt f

end Fork

/-! ## What the spaces should see -/

/-- The word at each address of each space. -/
abbrev Views := Space → U64 → U64

/-- A store that the processor performs changes the word in its own space, at all addresses where
that space has the same frame. -/
def Views.after (views : Views) (st : Fork) (a : MemAccess) : Views := fun who v =>
  match a.store with
  | none => views who v
  | some f =>
    if faults (st.leaf a.space a.virt) true = false ∧ who = a.space ∧
        mappedFrame (st.leaf who v) = mappedFrame (st.leaf who a.virt) ∧
        wordIndex v = wordIndex a.virt then
      f (views who v)
    else views who v

/-- The machine and the views side by side. -/
def forkStep (E : PageEntryOps) (st : Fork × Views) (a : MemAccess) : Option (Fork × Views) :=
  some (st.1.access E a, st.2.after st.1 a)

/-- At the addresses that were mapped before the clone, loads give what the views say. -/
def ReadsOwn (mapped : U64 → Prop) (st : Fork × Views) : Prop :=
  ∀ who v w, mapped v → st.1.load who v = some w → w = st.2 who v

/-- The state after `clone_address_space`, which was called in the memory `before`.  The words at
the time of the clone are the words in both spaces. -/
def forked (vmm child : VirtualMemoryManager) (before after : TableMem) : Fork × Views :=
  (⟨vmm, child, after⟩,
    fun _ v => before.mem (x86.slot (frameAddr (before.leafOf vmm.pml4 v)) (wordIndex v)))

/-- The page is present; or else the frame that `alloc_pages` hands out for it holds the words that
the space should see, if the page was mapped before the clone, and the frames for its tables hold
zeros. -/
def Refills (E : PageEntryApi) (mapped : U64 → Prop) (st : Fork × Views) (a : MemAccess) : Prop :=
  present (st.1.leaf a.space a.virt) = true ∨
    ∀ frame, a.frames.new st.1.mem.live = some frame →
      ZeroFor a.frames ⟨st.1.mem.mem, frame :: st.1.mem.live⟩
          (missingTables E st.1.mem.mem (st.1.vmm a.space).pml4 (upperPath a.virt)) ∧
        ∀ v, pageNumber v = pageNumber a.virt → mapped v →
          st.1.mem.mem (x86.slot frame (wordIndex v)) = st.2 a.space v

/-- The frames of the present pages are in use, and none of them is a table. -/
def FramesInUse (vmm : VirtualMemoryManager) (s : TableMem) : Prop :=
  ∀ v, present (s.leafOf vmm.pml4 v) = true →
    frameAddr (s.leafOf vmm.pml4 v) ∈ s.live ∧
      ¬ IsTable {vmm.pml4} s (frameAddr (s.leafOf vmm.pml4 v))

/-! ## Writes outside of the tables -/

/-- The two memories have the same words in all tables. -/
structure SameTables (roots : Set ℕ) (s s' : TableMem) : Prop where
  live : s'.live = s.live
  agree : ∀ r ∈ roots, ∀ (π : Path) t, π.length ≤ 3 → x86.tableAt s.mem r π = some t →
    ∀ i, s'.mem (x86.slot t i) = s.mem (x86.slot t i)

section Tables

variable {Node : ℕ → U64 → Prop} {roots : Set ℕ} {s s' : TableMem}

lemma SameTables.forest (h : SameTables roots s s')
    (hs : x86.Forest Node 3 roots s.live s.mem) : x86.Forest Node 3 roots s'.live s'.mem := by
  rw [h.live]
  exact RadixFormat.Forest.of_agree h.agree hs

lemma SameTables.leafOf (h : SameTables roots s s') {r : ℕ} (hr : r ∈ roots) (v : U64) :
    s'.leafOf r v = s.leafOf r v :=
  RadixFormat.leafWord_of_agree h.agree hr (upperPath_length v).le _

lemma SameTables.isTable (h : SameTables roots s s') (t : ℕ) :
    IsTable roots s' t ↔ IsTable roots s t := by
  constructor
  · rintro ⟨r, hr, π, hπ, ht⟩
    exact ⟨r, hr, π, hπ, by rw [← RadixFormat.tableAt_of_agree h.agree hr hπ]; exact ht⟩
  · rintro ⟨r, hr, π, hπ, ht⟩
    exact ⟨r, hr, π, hπ, by rw [RadixFormat.tableAt_of_agree h.agree hr hπ]; exact ht⟩

/-- Changes inside of one frame that is not a table. -/
lemma SameTables.of_frame (hs : x86.Forest Node 3 roots s.live s.mem) {d : ℕ} (hd : d ∈ s.live)
    (hdata : ¬ IsTable roots s d) {mem' : ℕ → U64}
    (hsame : ∀ t, t % 4096 = 0 → t ≠ d → ∀ i, mem' (x86.slot t i) = s.mem (x86.slot t i)) :
    SameTables roots s ⟨mem', s.live⟩ := by
  refine ⟨rfl, fun r hr π t hπ ht i => ?_⟩
  refine hsame t (hs.aligned t (hs.table_live r hr π t hπ ht)) ?_ i
  rintro rfl
  exact hdata ⟨r, hr, π, hπ, ht⟩

/-- `copy_nonoverlapping` fills its target. -/
lemma copyFrame_self (mem : ℕ → U64) (src dst : ℕ) (i : Fin 512) :
    copyFrame mem src dst (x86.slot dst i) = mem (x86.slot src i) := by
  rw [copyFrame, if_pos (x86.slot_inTable dst i)]
  simp [x86]

lemma copyFrame_other (mem : ℕ → U64) (src : ℕ) {dst t : ℕ} (hdst : dst % 4096 = 0)
    (ht : t % 4096 = 0) (hne : t ≠ dst) (i : Fin 512) :
    copyFrame mem src dst (x86.slot t i) = mem (x86.slot t i) := by
  rw [copyFrame, if_neg]
  exact fun hin => hne (x86.apart t dst _ ht hdst (x86.slot_inTable t i) hin)

end Tables

/-! ## Giving a page a frame -/

/-- From `s` to `s'` the page of `virt` got the entry `e`, and frames were obtained; the frames in
use that are not tables hold what they held. -/
structure Refit (roots : Set ℕ) (r : ℕ) (virt e : U64) (s s' : TableMem) : Prop where
  leaf : ∀ r' ∈ roots, ∀ v, s'.leafOf r' v
    = if r' = r ∧ pageNumber v = pageNumber virt then e else s.leafOf r' v
  live : s.live ⊆ s'.live
  data : ∀ d ∈ s.live, ¬ IsTable roots s d →
    ¬ IsTable roots s' d ∧ ∀ i, s'.mem (x86.slot d i) = s.mem (x86.slot d i)

/-- The entry is present and refers to a new frame. -/
structure NewFrame (roots : Set ℕ) (e : U64) (a : ℕ) (s s' : TableMem) : Prop where
  isPresent : present e = true
  frame : frameAddr e = a
  fresh : a ∉ s.live
  live : a ∈ s'.live
  data : ¬ IsTable roots s' a

section Refit

variable {Node : ℕ → U64 → Prop} {roots : Set ℕ} {r : ℕ} {virt e : U64} {s s₁ s' : TableMem}

lemma Refit.refl (roots : Set ℕ) (r : ℕ) (virt : U64) (s : TableMem) :
    Refit roots r virt (s.leafOf r virt) s s :=
  ⟨(LeafSet.refl roots r virt s).leaf, fun _ h => h, fun _ _ h => ⟨h, fun _ => rfl⟩⟩

/-- A frame was obtained, tables were created, and the entry was set. -/
lemma Refit.of_grows {a : ℕ} (hgrows : Grows roots ⟨s.mem, a :: s.live⟩ s₁)
    (hset : LeafSet roots r virt e s₁ s') : Refit roots r virt e s s' := by
  refine ⟨fun r' hr' v => ?_, fun d hd => ?_, fun d hd hdata => ?_⟩
  · rw [hset.leaf r' hr' v]
    congr 1
    exact hgrows.leaves r' hr' _ _ (upperPath_length v)
  · rw [hset.live]
    exact hgrows.live (List.mem_cons_of_mem a hd)
  · obtain ⟨hdata₁, hsame⟩ := hgrows.data d (List.mem_cons_of_mem a hd) hdata
    refine ⟨by rwa [hset.isTable], fun i => ?_⟩
    exact (hset.data d (hgrows.live (List.mem_cons_of_mem a hd)) hdata₁ i).trans (hsame i)

/-- Filling the new frame afterwards. -/
lemma Refit.sameTables {a : ℕ} (h : Refit roots r virt e s s₁) (hfresh : a ∉ s.live)
    (hal : ∀ t ∈ s.live, t % 4096 = 0) (htab : SameTables roots s₁ s')
    (hsame : ∀ t, t % 4096 = 0 → t ≠ a → ∀ i, s'.mem (x86.slot t i) = s₁.mem (x86.slot t i)) :
    Refit roots r virt e s s' := by
  refine ⟨fun r' hr' v => ?_, fun d hd => ?_, fun d hd hdata => ?_⟩
  · rw [htab.leafOf hr', h.leaf r' hr' v]
  · rw [htab.live]
    exact h.live hd
  · obtain ⟨hdata₁, hword⟩ := h.data d hd hdata
    refine ⟨by rwa [htab.isTable], fun i => ?_⟩
    rw [hsame d (hal d hd) fun hda => hfresh (hda ▸ hd), hword i]

/-- **`map_page` with a frame that was just obtained.**  When it fails, nothing is mapped. -/
lemma mapPage_refit {E : PageEntryApi} {A : FrameAllocator} {vmm : VirtualMemoryManager} {a : ℕ}
    {flags : U64} (hs : VmmForest E Node roots vmm.pml4 s) (ha : A.new s.live = some a)
    (hz : ZeroFor A ⟨s.mem, a :: s.live⟩ (missingTables E s.mem vmm.pml4 (upperPath virt)))
    (hflags : flags.getLsbD 0 = true) :
    ∃ vmm' s', vmm'.pml4 = vmm.pml4 ∧ x86.Forest Node 3 roots s'.live s'.mem ∧
      ((vmm.mapPage E A ⟨s.mem, a :: s.live⟩ virt (BitVec.ofNat 64 a) flags
            = (.error .outOfMemory, vmm', s') ∧
          Refit roots vmm.pml4 virt (s.leafOf vmm.pml4 virt) s s') ∨
        ∃ e, vmm.mapPage E A ⟨s.mem, a :: s.live⟩ virt (BitVec.ofNat 64 a) flags
            = (.ok (), vmm', s') ∧
          Refit roots vmm.pml4 virt e s s' ∧ NewFrame roots e a s s' ∧
          ∀ i, s'.mem (x86.slot a i) = s.mem (x86.slot a i)) := by
  have hal := A.aligned _ _ ha
  have hfresh := A.fresh _ _ ha
  have hs₀ := hs.addLive [a] (by simpa using hal)
  have hdata₀ : ¬ IsTable roots ⟨s.mem, a :: s.live⟩ a := by
    rintro ⟨r, hr, π, hπ, ht⟩
    exact hfresh (hs.forest.table_live r hr π a hπ ht)
  obtain ⟨vmm', s₁, hroot, hs₁, hgrows, hcase⟩ :=
    vmm_mapPage_cases (A := A) (BitVec.ofNat 64 a) flags hs₀ hz
  rcases hcase with hfail | ⟨t, ht, hok⟩
  · have hleaf : s₁.leafOf vmm.pml4 virt = s.leafOf vmm.pml4 virt :=
      hgrows.leaves _ hs.root _ _ (upperPath_length virt)
    refine ⟨vmm', s₁, hroot, hs₁.forest, .inl ⟨hfail, ?_⟩⟩
    rw [← hleaf]
    exact Refit.of_grows hgrows (.refl roots vmm.pml4 virt s₁)
  · obtain ⟨hdata₁, hsame₁⟩ := hgrows.data a List.mem_cons_self hdata₀
    have hlive₁ := hgrows.live List.mem_cons_self
    obtain ⟨hs', hset⟩ := LeafSet.write hs₁ ht
      (E.set (BitVec.ofNat 64 a) flags (s₁.mem (x86.slot t (ptIndex virt))))
    refine ⟨vmm', _, hroot, hs'.forest, .inr ⟨_, hok, .of_grows hgrows hset, ?_, fun i => ?_⟩⟩
    · refine ⟨?_, ?_, hfresh, by rw [hset.live]; exact hlive₁, by rwa [hset.isTable]⟩
      · rw [present_eq, E.set_flags _ _ _ 0 (by decide), hflags]
      · rw [frameAddr, E.hwAddr_set, toNat_hwAddr_ofNat hal (A.low _ _ ha)]
    · exact (hset.data a hlive₁ hdata₁ i).trans (hsame₁ i)

end Refit

/-! ## The invariant -/

lemma ne_zero_of_present {e : PageTableEntry} (h : present e = true) : e ≠ 0#64 := by
  rintro rfl
  exact absurd h (by decide)

/-- The top tables of both spaces. -/
def Fork.roots (st : Fork) : Set ℕ := {st.child.pml4, st.parent.pml4}

/-- The trees are in order; the frames of the present pages are in use and are not tables, no frame
is present in both spaces, and they hold what the views say. -/
structure Separate (E : PageEntryApi) (mapped : U64 → Prop) (st : Fork) (views : Views) : Prop where
  forest : x86.Forest (fun _ => IsVmmEntry E) 3 st.roots st.mem.live st.mem.mem
  distinct : st.parent.pml4 ≠ st.child.pml4
  framed : ∀ who v, present (st.leaf who v) = true →
    frameAddr (st.leaf who v) ∈ st.mem.live ∧ ¬ IsTable st.roots st.mem (frameAddr (st.leaf who v))
  apart : ∀ who who' v w, who ≠ who' → present (st.leaf who v) = true →
    present (st.leaf who' w) = true → frameAddr (st.leaf who v) ≠ frameAddr (st.leaf who' w)
  seen : ∀ who v, mapped v → present (st.leaf who v) = true →
    st.mem.mem (st.wordAddr who v) = views who v

section Invariant

variable {E : PageEntryApi} {mapped : U64 → Prop} {st : Fork} {views : Views}

lemma Fork.pml4_mem_roots (st : Fork) (who : Space) : (st.vmm who).pml4 ∈ st.roots := by
  cases who
  · exact .inr rfl
  · exact .inl rfl

lemma Separate.tree (h : Separate E mapped st views) (who : Space) :
    TreeIn (IsVmmEntry E) (fun _ => IsVmmEntry E) st.roots (st.vmm who).pml4 st.mem :=
  ⟨h.forest, st.pml4_mem_roots who, rfl⟩

lemma Separate.pml4_inj (h : Separate E mapped st views) {who who' : Space}
    (heq : (st.vmm who).pml4 = (st.vmm who').pml4) : who = who' := by
  cases who <;> cases who'
  · rfl
  · exact absurd heq h.distinct
  · exact absurd heq.symm h.distinct
  · rfl

lemma Separate.readsOwn (h : Separate E mapped st views) : ReadsOwn mapped (st, views) := by
  intro who v w hmapped hload
  rw [Fork.load] at hload
  split_ifs at hload with hp
  rw [← Option.some.inj hload]
  exact h.seen who v hmapped hp

@[simp] lemma Fork.set_mem (st : Fork) (new : VmmState) (who : Space) :
    (st.set new who).mem = new.2 := by
  cases who <;> rfl

lemma Fork.set_pml4 {st : Fork} {new : VmmState} {who : Space}
    (hroot : new.1.pml4 = (st.vmm who).pml4) (who' : Space) :
    ((st.set new who).vmm who').pml4 = (st.vmm who').pml4 := by
  cases who <;> cases who' <;> first | exact hroot | rfl

lemma Fork.set_roots {st : Fork} {new : VmmState} {who : Space}
    (hroot : new.1.pml4 = (st.vmm who).pml4) : (st.set new who).roots = st.roots := by
  have hparent := Fork.set_pml4 hroot .parent
  have hchild := Fork.set_pml4 hroot .child
  simp only [Fork.vmm] at hparent hchild
  rw [Fork.roots, Fork.roots, hparent, hchild]

/-- **A page gets an entry**: the one it had, or one with a new frame that holds what the space
should see. -/
lemma Separate.refit (h : Separate E mapped st views) {who : Space} {new : VmmState} {virt e : U64}
    (hroot : new.1.pml4 = (st.vmm who).pml4)
    (hforest : x86.Forest (fun _ => IsVmmEntry E) 3 st.roots new.2.live new.2.mem)
    (hfit : Refit st.roots (st.vmm who).pml4 virt e st.mem new.2)
    (he : e = st.leaf who virt ∨ ∃ a, NewFrame st.roots e a st.mem new.2 ∧
      ∀ v, pageNumber v = pageNumber virt → mapped v →
        new.2.mem (x86.slot a (wordIndex v)) = views who v) :
    Separate E mapped (st.set new who) views := by
  have hleaf : ∀ who' v, (st.set new who).leaf who' v
      = if who' = who ∧ pageNumber v = pageNumber virt then e else st.leaf who' v := by
    intro who' v
    rw [Fork.leaf, Fork.set_mem, Fork.set_pml4 hroot, hfit.leaf _ (st.pml4_mem_roots who')]
    refine if_congr (and_congr_left fun _ => ⟨h.pml4_inj, ?_⟩) rfl rfl
    rintro rfl
    rfl
  -- every entry is an old one, or it is the new one
  have hcases : ∀ who' v, (st.set new who).leaf who' v = st.leaf who' v ∨
      who' = who ∧ ∃ a, NewFrame st.roots ((st.set new who).leaf who' v) a st.mem new.2 ∧
        (mapped v → new.2.mem (x86.slot a (wordIndex v)) = views who v) := by
    intro who' v
    rw [hleaf]
    split_ifs with hpage
    · obtain ⟨rfl, hpage⟩ := hpage
      rcases he with rfl | ⟨a, hnew, hwords⟩
      · exact .inl (TableMem.leafOf_congr hpage.symm st.mem _)
      · exact .inr ⟨rfl, a, hnew, hwords v hpage⟩
    · exact .inl rfl
  refine ⟨?_, ?_, ?_, ?_, ?_⟩
  · rw [Fork.set_roots hroot, Fork.set_mem]
    exact hforest
  · have hparent := Fork.set_pml4 hroot .parent
    have hchild := Fork.set_pml4 hroot .child
    simp only [Fork.vmm] at hparent hchild
    rw [hparent, hchild]
    exact h.distinct
  · intro who' v hp
    rw [Fork.set_roots hroot, Fork.set_mem]
    rcases hcases who' v with hold | ⟨-, a, hnew, -⟩
    · rw [hold] at hp ⊢
      obtain ⟨hlive, hdata⟩ := h.framed who' v hp
      exact ⟨hfit.live hlive, (hfit.data _ hlive hdata).1⟩
    · rw [hnew.frame]
      exact ⟨hnew.live, hnew.data⟩
  · intro who₁ who₂ v w hne hv hw
    rcases hcases who₁ v with hold₁ | ⟨rfl, a, hnew₁, -⟩ <;>
      rcases hcases who₂ w with hold₂ | ⟨rfl, b, hnew₂, -⟩
    · rw [hold₁] at hv ⊢
      rw [hold₂] at hw ⊢
      exact h.apart who₁ who₂ v w hne hv hw
    · rw [hold₁] at hv ⊢
      rw [hnew₂.frame]
      exact fun heq => hnew₂.fresh (heq ▸ (h.framed who₁ v hv).1)
    · rw [hold₂] at hw ⊢
      rw [hnew₁.frame]
      exact fun heq => hnew₁.fresh (heq ▸ (h.framed who₂ w hw).1)
    · exact absurd rfl hne
  · intro who' v hmapped hp
    rw [Fork.wordAddr, Fork.set_mem]
    rcases hcases who' v with hold | ⟨rfl, a, hnew, hwords⟩
    · rw [hold] at hp ⊢
      obtain ⟨hlive, hdata⟩ := h.framed who' v hp
      rw [(hfit.data _ hlive hdata).2]
      exact h.seen who' v hmapped hp
    · rw [hnew.frame]
      exact hwords hmapped

/-- A store goes to a frame that is not a table. -/
lemma Separate.store_sameTables (h : Separate E mapped st views) {who : Space} {virt : U64}
    (hp : present (st.leaf who virt) = true) (f : U64 → U64) :
    SameTables st.roots st.mem (st.store who virt f).mem := by
  obtain ⟨hlive, hdata⟩ := h.framed who virt hp
  refine SameTables.of_frame h.forest hlive hdata fun t ht hne i => Function.update_of_ne ?_ _ _
  exact fun hslot => hne (x86.slot_eq ht (h.forest.aligned _ hlive) hslot).1

/-- A store changes the word at the addresses with the same frame and the same index. -/
lemma Separate.store_word (h : Separate E mapped st views) {who who' : Space} {virt v : U64}
    (hp : present (st.leaf who virt) = true) (hv : present (st.leaf who' v) = true)
    (f : U64 → U64) :
    (st.store who virt f).mem.mem (st.wordAddr who' v)
      = if who' = who ∧ mappedFrame (st.leaf who' v) = mappedFrame (st.leaf who' virt) ∧
          wordIndex v = wordIndex virt then f (st.mem.mem (st.wordAddr who' v))
        else st.mem.mem (st.wordAddr who' v) := by
  have hal := h.forest.aligned
  have hlive := (h.framed who virt hp).1
  have hlive' := (h.framed who' v hv).1
  split_ifs with hsame
  · obtain ⟨rfl, hframe, hidx⟩ := hsame
    have haddr : st.wordAddr who' v = st.wordAddr who' virt := by
      rw [mappedFrame_of_ne (ne_zero_of_present hv), mappedFrame_of_ne (ne_zero_of_present hp),
        Option.some.injEq] at hframe
      rw [Fork.wordAddr, Fork.wordAddr, frameAddr, frameAddr, hframe, hidx]
    rw [haddr]
    exact Function.update_self _ _ _
  · refine Function.update_of_ne (fun hslot => hsame ?_) _ _
    obtain ⟨hframe, hidx⟩ := x86.slot_eq (hal _ hlive') (hal _ hlive) hslot
    have hwho : who' = who := by
      by_contra hne
      exact h.apart who' who v virt hne hv hp hframe
    subst hwho
    refine ⟨rfl, ?_, hidx⟩
    rw [mappedFrame_of_ne (ne_zero_of_present hv), mappedFrame_of_ne (ne_zero_of_present hp),
      BitVec.eq_of_toNat_eq hframe]

/-- **A store to a present page.** -/
lemma Separate.store (h : Separate E mapped st views) {a : MemAccess} {f : U64 → U64}
    (hstore : a.store = some f) (hfault : faults (st.leaf a.space a.virt) true = false) :
    Separate E mapped (st.store a.space a.virt f) (views.after st a) := by
  have hp : present (st.leaf a.space a.virt) = true := by
    simp only [faults, Bool.or_eq_false_iff, Bool.not_eq_false'] at hfault
    exact hfault.1
  have htab := h.store_sameTables hp f
  have hleaf : ∀ who v, (st.store a.space a.virt f).leaf who v = st.leaf who v :=
    fun who v => htab.leafOf (st.pml4_mem_roots who) v
  refine ⟨htab.forest h.forest, h.distinct, fun who v hv => ?_, fun who who' v w hne hv hw => ?_,
    fun who v hmapped hv => ?_⟩
  · rw [hleaf] at hv ⊢
    obtain ⟨hlive, hdata⟩ := h.framed who v hv
    exact ⟨hlive, fun ht => hdata ((htab.isTable _).mp ht)⟩
  · rw [hleaf] at hv hw ⊢
    rw [hleaf]
    exact h.apart who who' v w hne hv hw
  · rw [hleaf] at hv
    rw [Fork.wordAddr, hleaf, ← Fork.wordAddr, h.store_word hp hv, h.seen who v hmapped hv]
    simp only [Views.after, hstore, hfault, true_and]

end Invariant

/-! ## Page faults -/

lemma faultCode_and_one (e : PageTableEntry) (isStore : Bool) :
    faultCode e isStore &&& 0x01#64 = 0#64 ↔ present e = false := by
  rw [faultCode]
  cases present e <;> cases isStore <;> decide

/-- Rounding down stays in the page. -/
lemma pageNumber_and_not_mask (virt : U64) :
    pageNumber (virt &&& ~~~0xFFF#64) = pageNumber virt := by
  apply BitVec.eq_of_getLsbD_eq
  intro j hj
  simp only [pageNumber, BitVec.getLsbD_extractLsb', BitVec.getLsbD_and, BitVec.getLsbD_not,
    getLsbD_flagMask]
  have h12 : ¬ 12 + j < 12 := by omega
  have h64 : 12 + j < 64 := by omega
  simp [h12, h64]

/-- Where a walk succeeds no table is missing. -/
lemma missingTables_of_tableAt (E : PageEntryApi) {mem : ℕ → U64} {π : Path} :
    ∀ {t pt : ℕ}, x86.tableAt mem t π = some pt → missingTables E mem t π = 0 := by
  induction π with
  | nil => exact fun _ => rfl
  | cons i π ih =>
    intro t pt h
    rw [RadixFormat.tableAt, Option.bind_eq_some_iff] at h
    obtain ⟨u, hu, h⟩ := h
    change hwNext (mem (x86.slot t i)) = some u at hu
    rw [hwNext] at hu
    split_ifs at hu with hp
    rw [missingTables, E.isUnused_eq, if_neg (by simpa using ne_zero_of_present hp), E.addr_eq,
      Option.some.inj hu]
    exact ih h

section Faults

variable {E : PageEntryOps} {mapped : U64 → Prop} {st : Fork} {views : Views}

/-- A call that changes nothing. -/
lemma Separate.same (h : Separate E mapped st views) (who : Space) :
    Separate E mapped (st.set (st.vmm who, st.mem) who) views :=
  h.refit rfl h.forest (.refl st.roots _ 0#64 st.mem) (.inl rfl)

/-- **A page that is not present** gets a new frame. -/
lemma Separate.demand (h : Separate E mapped st views) {who : Space}
    {A : FrameAllocator} {vaddr flags : U64} (hflags : flags.getLsbD 0 = true)
    (hframe : ∀ frame, A.new st.mem.live = some frame →
      ZeroFor A ⟨st.mem.mem, frame :: st.mem.live⟩
          (missingTables E st.mem.mem (st.vmm who).pml4 (upperPath vaddr)) ∧
        ∀ v, pageNumber v = pageNumber vaddr → mapped v →
          st.mem.mem (x86.slot frame (wordIndex v)) = views who v) :
    Separate E mapped
      (st.set (mapFresh E A (st.vmm who) st.mem vaddr flags).2 who) views := by
  rw [mapFresh, withFrame]
  cases hnew : A.new st.mem.live with
  | none => exact h.same who
  | some a =>
    obtain ⟨hz, hwords⟩ := hframe a hnew
    obtain ⟨vmm', s', hroot, hforest, ⟨hmap, hfit⟩ | ⟨e, hmap, hfit, hnewframe, hkeep⟩⟩ :=
      mapPage_refit (h.tree who) hnew hz hflags
    · simp only [hmap]
      exact h.refit hroot hforest hfit (.inl rfl)
    · simp only [hmap]
      refine h.refit hroot hforest hfit (.inr ⟨a, hnewframe, fun v hpage hmapped => ?_⟩)
      rw [hkeep, hwords v hpage hmapped]

/-- **A copy**: the page gets a new frame with the words of the old one. -/
lemma Separate.copy (h : Separate E mapped st views) {who : Space}
    {A : FrameAllocator} {vaddr : U64} (hp : present (st.leaf who vaddr) = true) :
    Separate E mapped
      (st.set (handleCowFault E A (st.vmm who) st.mem vaddr).2 who) views := by
  rw [handleCowFault, withFrame]
  cases hnew : A.new st.mem.live with
  | none => exact h.same who
  | some a =>
    have hal := A.aligned _ _ hnew
    have htree := (h.tree who).addLive [a] (by simpa using hal)
    have htranslate : (st.vmm who).translate E ⟨st.mem.mem, a :: st.mem.live⟩ vaddr
        = some (hwAddr (st.leaf who vaddr)) :=
      (translate_eq htree vaddr).trans (mappedFrame_of_ne (ne_zero_of_present hp))
    have hz : ZeroFor A ⟨st.mem.mem, a :: st.mem.live⟩
        (missingTables E st.mem.mem (st.vmm who).pml4 (upperPath vaddr)) := by
      cases ht : x86.tableAt st.mem.mem (st.vmm who).pml4 (upperPath vaddr) with
      | none =>
        rw [Fork.leaf, TableMem.leafOf, RadixFormat.leafWord_of_none x86 ht] at hp
        exact absurd hp (by decide)
      | some pt =>
        rw [missingTables_of_tableAt _ ht]
        exact fun b hb => absurd hb List.not_mem_nil
    obtain ⟨hlive, hdata⟩ := h.framed who vaddr hp
    obtain ⟨vmm', s', hroot, hforest, ⟨hmap, hfit⟩ | ⟨e, hmap, hfit, hnewframe, -⟩⟩ :=
      mapPage_refit (h.tree who) hnew hz (show (0x07#64).getLsbD 0 = true by decide)
    · simp only [htranslate, hmap]
      exact h.refit hroot hforest hfit (.inl rfl)
    · simp only [htranslate, hmap]
      have hsame : ∀ t, t % 4096 = 0 → t ≠ a → ∀ i,
          copyFrame s'.mem (frameAddr (st.leaf who vaddr)) a (x86.slot t i)
            = s'.mem (x86.slot t i) :=
        fun t ht hne i => copyFrame_other _ _ hal ht hne i
      have htab := SameTables.of_frame hforest hnewframe.live hnewframe.data hsame
      refine h.refit hroot (htab.forest hforest)
        (hfit.sameTables hnewframe.fresh h.forest.aligned htab hsame) (.inr ⟨a, ?_, ?_⟩)
      · exact ⟨hnewframe.isPresent, hnewframe.frame, hnewframe.fresh, hnewframe.live,
          fun ht => hnewframe.data ((htab.isTable a).mp ht)⟩
      · intro v hpage hmapped
        have hleaf : st.leaf who v = st.leaf who vaddr := TableMem.leafOf_congr hpage st.mem _
        have hseen := h.seen who v hmapped (by rwa [hleaf])
        rw [Fork.wordAddr, hleaf] at hseen
        rw [← hseen, ← (hfit.data _ hlive hdata).2]
        exact copyFrame_self _ _ _ _

/-- **An attempt that faults.** -/
lemma Separate.fault (h : Separate E mapped st views) {a : MemAccess}
    (hok : Refills E mapped (st, views) a) (isStore : Bool) :
    Separate E mapped
      (st.set (handlePageFault E a.frames (st.vmm a.space) st.mem a.virt
        (faultCode (st.leaf a.space a.virt) isStore)).2 a.space) views := by
  have hpage := pageNumber_and_not_mask a.virt
  have hleaf : st.leaf a.space (a.virt &&& ~~~0xFFF#64) = st.leaf a.space a.virt :=
    TableMem.leafOf_congr hpage st.mem _
  simp only [handlePageFault, faultCode_and_one]
  cases hp : present (st.leaf a.space a.virt) with
  | false =>
    rw [if_pos rfl]
    refine h.demand (by decide) fun frame hnew => ?_
    obtain ⟨hz, hwords⟩ := (hok.resolve_left (by simp [hp])) frame hnew
    rw [((pageNumber_eq_iff _ _).mp hpage).1, hpage]
    exact ⟨hz, hwords⟩
  | true =>
    rw [if_neg (by simp)]
    split_ifs
    · exact h.copy (by rwa [hleaf])
    · exact h.same a.space

/-- **One attempt** keeps the spaces apart. -/
lemma forkStep_separate (s : Fork × Views) (a : MemAccess) (s' : Fork × Views)
    (h : Separate E mapped s.1 s.2) (hok : Refills E mapped s a)
    (hstep : forkStep E s a = some s') : Separate E mapped s'.1 s'.2 := by
  obtain ⟨st, views⟩ := s
  rw [← Option.some.inj hstep]
  simp only [Fork.access]
  cases hstore : a.store with
  | none =>
    have hviews : views.after st a = views := by
      funext who v
      simp only [Views.after, hstore]
    rw [hviews]
    split_ifs
    · exact h.fault hok _
    · exact h
  | some f =>
    split_ifs with hfault
    · have hviews : views.after st a = views := by
        funext who v
        simp only [Views.after, hstore]
        rw [if_neg fun hcond => by simp_all]
      rw [hviews]
      exact h.fault hok _
    · exact h.store hstore (by simpa using hfault)

end Faults

/-! ## From the clone on -/

section Start

variable {E : PageEntryOps} {A : FrameAllocator} {vmm child : VirtualMemoryManager}
  {s s' : TableMem}

/-- The pages of the parent that are still present have their old entries. -/
lemma Cloning.leafOf_parent {Node : ℕ → U64 → Prop} {roots : Set ℕ} {p c : ℕ}
    (h : Cloning Node roots p c s s') {v : U64} (hp : present (s'.leafOf p v) = true) :
    s'.leafOf p v = s.leafOf p v := by
  rcases h.leafOf_marked v with hsame | ⟨-, -, hnot⟩
  · exact hsame
  · rw [hnot] at hp
    cases hp

/-- No page of the child is present. -/
lemma Cloning.leafOf_child {Node : ℕ → U64 → Prop} {roots : Set ℕ} {p c : ℕ}
    (h : Cloning Node roots p c s s') (v : U64) : present (s'.leafOf c v) = false := by
  cases ht : x86.tableAt s'.mem c (upperPath v) with
  | none =>
    rw [TableMem.leafOf, RadixFormat.leafWord_of_none x86 ht]
    decide
  | some t =>
    rw [leafOf_of_tableAt ht]
    exact h.hidden _ t _ (upperPath_length v) ht

/-- **After the clone** the invariant holds. -/
lemma forked_separate (hs : OwnTree E vmm.pml4 s) (hused : FramesInUse vmm s)
    (hclone : vmm.cloneAddressSpace E A s = some (.ok child, s')) (mapped : U64 → Prop) :
    Separate E mapped (forked vmm child s s').1 (forked vmm child s s').2 := by
  obtain ⟨h, -⟩ := cloneAddressSpace_spec hs hclone
  -- only pages of the parent are present, with their old entries
  have hpresent : ∀ who v, present ((forked vmm child s s').1.leaf who v) = true →
      who = .parent ∧ (forked vmm child s s').1.leaf who v = s.leafOf vmm.pml4 v ∧
        present (s.leafOf vmm.pml4 v) = true := by
    intro who v hp
    cases who with
    | parent =>
      have hleaf := h.leafOf_parent hp
      exact ⟨rfl, hleaf, hleaf ▸ hp⟩
    | child =>
      have hnot := h.leafOf_child v
      exact absurd (hnot.symm.trans hp) (by decide)
  refine ⟨h.forest, ?_, fun who v hp => ?_, fun who who' v w hne hv hw => ?_, fun who v _ hp => ?_⟩
  · intro heq
    have hlive := hs.forest.table_live _ hs.root [] vmm.pml4 (by decide) rfl
    exact h.fresh [] child.pml4 (by decide) rfl (heq ▸ hlive)
  · obtain ⟨-, hleaf, hp⟩ := hpresent who v hp
    rw [hleaf]
    obtain ⟨hlive, hdata⟩ := hused v hp
    refine ⟨h.live hlive, ?_⟩
    rintro ⟨r, rfl | rfl, π, hπ, ht⟩
    · exact h.fresh π _ hπ ht hlive
    · exact hdata ⟨_, rfl, π, hπ, (h.tableAt_parent hπ).symm.trans ht⟩
  · exact absurd ((hpresent who v hv).1.trans (hpresent who' w hw).1.symm) hne
  · obtain ⟨-, hleaf, hp⟩ := hpresent who v hp
    obtain ⟨hlive, hdata⟩ := hused v hp
    rw [Fork.wordAddr, hleaf]
    exact h.data _ hlive hdata _

end Start

/-- The tree is in order, and the frames of the present pages are in use. -/
structure Settled (E : PageEntryApi) (st : VmmState) : Prop where
  tree : OwnTree E st.1.pml4 st.2
  used : FramesInUse st.1 st.2

/-- A page fault leaves a space in order. -/
lemma Settled.mapFresh {E : PageEntryOps} {A : FrameAllocator} {st : VmmState} {virt flags : U64}
    (h : Settled E st) (hflags : flags.getLsbD 0 = true)
    (hz : ∀ a ∈ A.new st.2.live, ZeroFor A ⟨st.2.mem, a :: st.2.live⟩
      (missingTables E st.2.mem st.1.pml4 (upperPath virt))) :
    Settled E (mapFresh E A st.1 st.2 virt flags).2 := by
  rw [VirtualMemoryManager.mapFresh, withFrame]
  cases hnew : A.new st.2.live with
  | none => exact h
  | some a =>
    obtain ⟨vmm', s', hroot, hforest, hcase⟩ := mapPage_refit h.tree hnew (hz a hnew) hflags
    have htree : OwnTree E vmm'.pml4 s' := by
      rw [hroot]
      exact ⟨hforest, rfl, rfl⟩
    -- an entry that was there before
    have hold : ∀ e, Refit {st.1.pml4} st.1.pml4 virt e st.2 s' → ∀ v,
        present (st.2.leafOf st.1.pml4 v) = true → frameAddr (st.2.leafOf st.1.pml4 v) ∈ s'.live ∧
          ¬ IsTable {st.1.pml4} s' (frameAddr (st.2.leafOf st.1.pml4 v)) := by
      intro e hfit v hp
      obtain ⟨hlive, hdata⟩ := h.used v hp
      exact ⟨hfit.live hlive, (hfit.data _ hlive hdata).1⟩
    rcases hcase with ⟨hmap, hfit⟩ | ⟨e, hmap, hfit, hnewframe, -⟩
    · simp only [hmap]
      refine ⟨htree, fun v hp => ?_⟩
      have hleaf : s'.leafOf st.1.pml4 v = st.2.leafOf st.1.pml4 v := by
        rw [hfit.leaf _ rfl v]
        split_ifs with hpage
        · exact TableMem.leafOf_congr hpage.2.symm _ _
        · rfl
      simp only [hroot, hleaf] at hp ⊢
      exact hold _ hfit v hp
    · simp only [hmap]
      refine ⟨htree, fun v hp => ?_⟩
      have hleaf := hfit.leaf _ rfl v
      simp only [hroot] at hp ⊢
      rw [hleaf] at hp ⊢
      split_ifs at hp ⊢ with hpage
      · rw [hnewframe.frame]
        exact ⟨hnewframe.live, hnewframe.data⟩
      · exact hold _ hfit v hp

/-- A new address space in a memory where one frame that is free holds a word. -/
def usedMemory : VmmState :=
  (emptySpace.1, ⟨fun x => if x = 0x201000 then 42#64 else 0#64, emptySpace.2.live⟩)

lemma usedMemory_inOrder : Settled plainPageEntry usedMemory := by
  have hzero : ∀ i, usedMemory.2.mem (x86.slot usedMemory.1.pml4 i) = 0#64 := by decide +kernel
  refine ⟨treeIn_of_zero _ (by decide) (by decide) hzero, fun v hp => ?_⟩
  rw [leafOf_of_zero hzero v] at hp
  exact absurd hp (by decide)

/-- A page is mapped, with the word 42 in it. -/
def onePage : VmmState :=
  (mapFresh plainEntryOps bumpFrames usedMemory.1 usedMemory.2 0x1000#64 0x03#64).2

lemma onePage_inOrder : Settled plainPageEntry onePage :=
  Settled.mapFresh (E := plainEntryOps) usedMemory_inOrder (by decide)
    (by unfold ZeroFor; decide +kernel)

/-- A second page, in the second gigabyte. -/
def farPage : VmmState :=
  (mapFresh plainEntryOps bumpFrames onePage.1 onePage.2 0x40002000#64 0x03#64).2

lemma farPage_inOrder : Settled plainPageEntry farPage :=
  Settled.mapFresh (E := plainEntryOps) onePage_inOrder (by decide)
    (by unfold ZeroFor; decide +kernel)

/-- The parent stores a word in the second page. -/
def farStore : List MemAccess := [⟨.parent, 0x40002008#64, some fun _ => 7#64, bumpFrames⟩]

/-- The child reads its copy of the page, and then the parent reads the page. -/
def firstReads : List MemAccess :=
  [⟨.child, 0x1000#64, none, bumpFrames⟩, ⟨.parent, 0x1000#64, none, bumpFrames⟩]

end Masika
