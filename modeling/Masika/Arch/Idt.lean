import Mathlib.Logic.Function.Basic
import Masika.Core.BitPacked
import Masika.Core.Overflow
import Masika.Core.Runs

/-!
# The interrupt descriptor table

An entry of the table holds the address of a handler in three parts, the type and the privilege
level of the gate in `types_attr`, and the number of an interrupt stack in `ist`; `IdtEntry.decode`
puts them together as the processor does.  Seven functions write entries.  Each call asks for some
of these values for one vector (`IdtCall.vector`, `IdtCall.values`), and `requestStep` keeps what
was asked for last.  The table should hold it.

It does not always, for five reasons.

* `set_gate` ignores its argument `dpl` and knows only two kinds of gate.
* It also clears the interrupt stack, which its callers do not ask for.
* `set_ist_for_vector` leaves the last vector out.
* The vector of an interrupt line is computed with 8 bits, so that lines from 224 on are installed
  over the exceptions, or stop the kernel if overflows are checked for.
* Only three bits of `ist` are stored.

`idtStores_iff` says that there are no others.
-/

namespace Masika

/-! ## The table -/

/-- An entry of the table. -/
structure IdtEntry where
  offsetLow : U16
  selector : U16
  ist : U8
  typesAttr : U8
  offsetMid : U16
  offsetHigh : U32
  reserved : U32
deriving DecidableEq, Repr

/-- The kinds of gates. -/
inductive GateType where
  | interruptGate | trapGate | taskGate
deriving DecidableEq, Repr

/-- The type bits. -/
def GateType.value : GateType → U8
  | interruptGate => 0xE#8
  | trapGate => 0xF#8
  | taskGate => 0x5#8

/-- The attributes that `set_gate` chooses. -/
def gateAttr (gateType : GateType) : U8 := if gateType = .trapGate then 0xEF#8 else 0x8E#8

namespace IdtEntry

/-- An entry that is not present. -/
def new : IdtEntry := ⟨0#16, 0#16, 0#8, 0#8, 0#16, 0#32, 0#32⟩

/-- All fields are written. -/
def setHandler (_ : IdtEntry) (addr : U64) (attr : U8) (selector : U16) (ist : U8) : IdtEntry where
  offsetLow := (addr &&& 0xFFFF#64).setWidth 16
  offsetMid := ((addr >>> 16) &&& 0xFFFF#64).setWidth 16
  offsetHigh := ((addr >>> 32) &&& 0xFFFFFFFF#64).setWidth 32
  typesAttr := attr
  selector := selector
  ist := ist &&& 0x7#8
  reserved := 0#32

end IdtEntry

/-- `[IdtEntry; 256]` -/
abbrev Idt := U8 → IdtEntry

namespace Idt

variable (idt : Idt)

/-- `dpl` is not used. -/
def setGate (index : U64) (handler : U64) (gateType : GateType) (_dpl : U8) : Idt :=
  if index < 256#64 then
    Function.update idt (index.setWidth 8)
      ((idt (index.setWidth 8)).setHandler handler (gateAttr gateType) 0x08#16 0#8)
  else idt

/-- An interrupt gate. -/
def installIsr (index : U8) (handler : U64) : Idt :=
  idt.setGate (index.setWidth 64) handler .interruptGate 0#8

/-- A trap gate. -/
def installUserIsr (index : U8) (handler : U64) : Idt :=
  idt.setGate (index.setWidth 64) handler .trapGate 3#8

/-- `set_ist_for_vector`, which tests `vector < 255`. -/
def setIstForVector (vector istIndex : U8) : Idt :=
  if vector < 255#8 then
    Function.update idt vector { idt vector with ist := istIndex &&& 0x7#8 }
  else idt

/-- An interrupt gate at `irq + 32`. -/
def installIrqHandler (checks : Bool) (irq : U8) (handler : U64) : Option Idt :=
  (addWith checks irq 32#8).map fun vector =>
    idt.setGate (vector.setWidth 64) handler .interruptGate 0#8

/-- A trap gate at `irq + 32`. -/
def installUserIrqHandler (checks : Bool) (irq : U8) (handler : U64) : Option Idt :=
  (addWith checks irq 32#8).map fun vector =>
    idt.setGate (vector.setWidth 64) handler .trapGate 3#8

/-- All fields as given. -/
def updateIdtEntry (index : U8) (offset : U64) (selector : U16) (ist typesAttr : U8) : Idt :=
  Function.update idt index
    { offsetLow := (offset &&& 0xFFFF#64).setWidth 16
      offsetMid := ((offset >>> 16) &&& 0xFFFF#64).setWidth 16
      offsetHigh := ((offset >>> 32) &&& 0xFFFFFFFF#64).setWidth 32
      selector := selector
      ist := ist &&& 0x7#8
      typesAttr := typesAttr
      reserved := 0#32 }

end Idt

/-! ## What the calls ask for -/

/-- What an entry means. -/
structure DecodedGate where
  offset : U64
  gateType : U8
  dpl : U8
  ist : U8
deriving DecidableEq, Repr

/-- The gate type and the privilege level in `types_attr`. -/
def attrType (typesAttr : U8) : U8 := typesAttr &&& 0xF#8

/-- The privilege level in the attributes. -/
def attrDpl (typesAttr : U8) : U8 := (typesAttr >>> 5) &&& 0x3#8

/-- What the processor reads. -/
def IdtEntry.decode (e : IdtEntry) : DecodedGate where
  offset := e.offsetHigh ++ (e.offsetMid ++ e.offsetLow)
  gateType := attrType e.typesAttr
  dpl := attrDpl e.typesAttr
  ist := e.ist

/-- The calls. -/
inductive IdtCall where
  | setGate (index handler : U64) (gateType : GateType) (dpl : U8)
  | installIsr (index : U8) (handler : U64)
  | installUserIsr (index : U8) (handler : U64)
  | installIrqHandler (irq : U8) (handler : U64)
  | installUserIrqHandler (irq : U8) (handler : U64)
  | updateIdtEntry (index : U8) (offset : U64) (selector : U16)
      (ist typesAttr : U8)
  | setIstForVector (vector istIndex : U8)

/-- One call. -/
def idtStep (checks : Bool) (idt : Idt) : IdtCall → Option Idt
  | .setGate index handler gateType dpl => some (idt.setGate index handler gateType dpl)
  | .installIsr index handler => some (idt.installIsr index handler)
  | .installUserIsr index handler => some (idt.installUserIsr index handler)
  | .installIrqHandler irq handler => idt.installIrqHandler checks irq handler
  | .installUserIrqHandler irq handler => idt.installUserIrqHandler checks irq handler
  | .updateIdtEntry index offset selector ist typesAttr =>
    some (idt.updateIdtEntry index offset selector ist typesAttr)
  | .setIstForVector vector istIndex => some (idt.setIstForVector vector istIndex)

namespace IdtCall

/-- The vector a call is about.  Line `n` is vector `n + 32`. -/
def vector : IdtCall → ℕ
  | setGate index _ _ _ => index.toNat
  | installIsr index _ => index.toNat
  | installUserIsr index _ => index.toNat
  | installIrqHandler irq _ => irq.toNat + 32
  | installUserIrqHandler irq _ => irq.toNat + 32
  | updateIdtEntry index _ _ _ _ => index.toNat
  | setIstForVector vector _ => vector.toNat

/-- A request for a gate says nothing about the interrupt stack. -/
def gateValues (handler : U64) (gateType : GateType) (dpl : U8) (g : DecodedGate) : DecodedGate :=
  { g with offset := handler, gateType := gateType.value, dpl := dpl }

/-- The values a call asks for, where `g` was asked for before. -/
def values : IdtCall → DecodedGate → DecodedGate
  | setGate _ handler gateType dpl => gateValues handler gateType dpl
  | installIsr _ handler => gateValues handler .interruptGate 0#8
  | installUserIsr _ handler => gateValues handler .trapGate 3#8
  | installIrqHandler _ handler => gateValues handler .interruptGate 0#8
  | installUserIrqHandler _ handler => gateValues handler .trapGate 3#8
  | updateIdtEntry _ offset _ ist typesAttr =>
    fun _ => ⟨offset, attrType typesAttr, attrDpl typesAttr, ist⟩
  | setIstForVector _ istIndex => fun g => { g with ist := istIndex }

/-- The interrupt line a call is about. -/
def line : IdtCall → Option U8
  | installIrqHandler irq _ => some irq
  | installUserIrqHandler irq _ => some irq
  | _ => none

end IdtCall

/-- One more request. -/
def requestStep (req : ℕ → DecodedGate) (call : IdtCall) : ℕ → DecodedGate :=
  Function.update req call.vector (call.values (req call.vector))

/-- The table holds what was asked for. -/
def Decodes (idt : Idt) (req : ℕ → DecodedGate) : Prop :=
  ∀ v : U8, (idt v).decode = req v.toNat

/-- What the entries of the table are in the beginning. -/
def Idt.decoded (idt : Idt) (v : ℕ) : DecodedGate := (idt (BitVec.ofNat 8 v)).decode

/-- **The table stores what was requested**, at every point of the sequence, and a request for an
interrupt line changes only the vector of that line, whatever is in the table: no other one, and no
exception. -/
structure IdtStores (checks : Bool) (idt : Idt) (calls : List IdtCall) : Prop where
  follows : Follows Decodes (idtStep checks) requestStep idt idt.decoded calls
  lines : ∀ call ∈ calls, ∀ n, call.line = some n → ∀ idt idt',
    idtStep checks idt call = some idt' → ∀ v : U8, v.toNat ≠ n.toNat + 32 → idt' v = idt v

/-- A gate that `set_gate` stores as it is asked to. -/
def PlainGate (gateType : GateType) (dpl : U8) : Prop :=
  gateType = .interruptGate ∧ dpl = 0#8 ∨ gateType = .trapGate ∧ dpl = 3#8

/-- The call stores what it is asked to, when `req` was asked for before. -/
def IdtCall.Honoured (req : ℕ → DecodedGate) : IdtCall → Prop
  | .setGate index _ gateType dpl =>
    index.toNat < 256 → PlainGate gateType dpl ∧ (req index.toNat).ist = 0#8
  | .installIsr index _ => (req index.toNat).ist = 0#8
  | .installUserIsr index _ => (req index.toNat).ist = 0#8
  | .installIrqHandler irq _ => irq.toNat < 224 ∧ (req (irq.toNat + 32)).ist = 0#8
  | .installUserIrqHandler irq _ => irq.toNat < 224 ∧ (req (irq.toNat + 32)).ist = 0#8
  | .updateIdtEntry _ _ _ ist _ => ist.toNat < 8
  | .setIstForVector vector istIndex =>
    if vector = 255#8 then istIndex = (req 255).ist else istIndex.toNat < 8

/-! ## Entries -/

section Entries

variable {idt : Idt} {req : ℕ → DecodedGate}

/-- The three parts of an address. -/
lemma offset_parts (addr : U64) :
    ((addr >>> 32) &&& 0xFFFFFFFF#64).setWidth 32 ++
      (((addr >>> 16) &&& 0xFFFF#64).setWidth 16 ++ (addr &&& 0xFFFF#64).setWidth 16) = addr := by
  have h32 : (0xFFFFFFFF#64).setWidth 32 = BitVec.allOnes 32 := by decide
  have h16 : (0xFFFF#64).setWidth 16 = BitVec.allOnes 16 := by decide
  rw [BitVec.setWidth_and, BitVec.setWidth_and, BitVec.setWidth_and, h32, h16, BitVec.and_allOnes,
    BitVec.and_allOnes, BitVec.and_allOnes, BitVec.setWidth_ushiftRight_eq_extractLsb,
    BitVec.setWidth_ushiftRight_eq_extractLsb, BitVec.setWidth_eq_extractLsb' (by decide),
    BitVec.extractLsb'_append_extractLsb'_eq_extractLsb' (show 16 = 0 + 16 from rfl)]
  exact (BitVec.extractLsb'_append_extractLsb'_eq_extractLsb' rfl).trans BitVec.extractLsb'_eq_self

lemma decode_setHandler (e : IdtEntry) (addr : U64) (attr : U8) (selector : U16) (ist : U8) :
    (e.setHandler addr attr selector ist).decode =
      ⟨addr, attrType attr, attrDpl attr, ist &&& 0x7#8⟩ := by
  simp only [IdtEntry.decode, IdtEntry.setHandler, offset_parts]

/-- **One entry is written** and one request is made, for the same vector. -/
lemma decodes_update (h : Decodes idt req) (v : U8) (e : IdtEntry) (g : DecodedGate) :
    Decodes (Function.update idt v e) (Function.update req v.toNat g) ↔ e.decode = g := by
  constructor
  · intro hupdate
    simpa using hupdate v
  · intro he u
    by_cases hu : u = v
    · subst hu
      simpa using he
    · have hne : u.toNat ≠ v.toNat := fun hnat => hu (BitVec.eq_of_toNat_eq hnat)
      rw [Function.update_of_ne hu, Function.update_of_ne hne]
      exact h u

/-- A request that leaves the table as it is. -/
lemma decodes_request_iff (h : Decodes idt req) (v : U8) (g : DecodedGate) :
    Decodes idt (Function.update req v.toNat g) ↔ req v.toNat = g := by
  have hsame := decodes_update h v (idt v) g
  rwa [Function.update_eq_self, h v] at hsame

/-- A request for a vector that does not exist. -/
lemma decodes_request_beyond (h : Decodes idt req) {n : ℕ} (hn : 256 ≤ n) (g : DecodedGate) :
    Decodes idt (Function.update req n g) := by
  intro v
  rw [Function.update_of_ne]
  · exact h v
  · have := v.isLt
    omega

lemma and_seven_eq_iff (ist : U8) : ist &&& 0x7#8 = ist ↔ ist.toNat < 8 := by
  have hmask : (ist &&& 0x7#8).toNat = ist.toNat % 2 ^ 3 :=
    toNat_and_mask ist (show 3 ≤ 8 by decide)
  rw [← BitVec.toNat_inj, hmask]
  omega

/-- What `set_gate` stores. -/
lemma gateValues_eq_iff (handler : U64) (gateType : GateType) (dpl : U8) (g : DecodedGate) :
    (⟨handler, attrType (gateAttr gateType), attrDpl (gateAttr gateType), 0#8⟩ : DecodedGate) =
      IdtCall.gateValues handler gateType dpl g ↔ PlainGate gateType dpl ∧ g.ist = 0#8 := by
  rw [IdtCall.gateValues, DecodedGate.mk.injEq, PlainGate, eq_comm (a := 0#8)]
  cases gateType with
  | interruptGate =>
    have hdpl : attrDpl (gateAttr .interruptGate) = 0#8 := by decide
    have htype : attrType (gateAttr .interruptGate) = GateType.interruptGate.value := by decide
    simp only [hdpl, htype, true_and, reduceCtorEq, false_and, or_false]
    exact and_congr_left' eq_comm
  | trapGate =>
    have hdpl : attrDpl (gateAttr .trapGate) = 3#8 := by decide
    have htype : attrType (gateAttr .trapGate) = GateType.trapGate.value := by decide
    simp only [hdpl, htype, true_and, reduceCtorEq, false_and, false_or]
    exact and_congr_left' eq_comm
  | taskGate =>
    have htype : attrType (gateAttr .taskGate) ≠ GateType.taskGate.value := by decide
    simp [htype]

end Entries

/-! ## Calls -/

section Calls

variable {checks : Bool} {idt : Idt} {req : ℕ → DecodedGate}

/-- **`set_gate`** follows a request exactly for plain gates of vectors without a stack. -/
lemma setGate_follows (h : Decodes idt req) (index handler : U64) (gateType : GateType) (dpl : U8) :
    Decodes (idt.setGate index handler gateType dpl)
        (Function.update req index.toNat
          (IdtCall.gateValues handler gateType dpl (req index.toNat))) ↔
      (index.toNat < 256 → PlainGate gateType dpl ∧ (req index.toNat).ist = 0#8) := by
  rw [Idt.setGate]
  split_ifs with hlt
  · have hlt' : index.toNat < 256 := hlt
    have hvector : (index.setWidth 8).toNat = index.toNat := by
      rw [BitVec.toNat_setWidth]
      exact Nat.mod_eq_of_lt hlt'
    have hupdate := decodes_update h (index.setWidth 8)
      ((idt (index.setWidth 8)).setHandler handler (gateAttr gateType) 0x08#16 0#8)
      (IdtCall.gateValues handler gateType dpl (req index.toNat))
    rw [hvector] at hupdate
    rw [hupdate, decode_setHandler]
    exact (gateValues_eq_iff handler gateType dpl _).trans ⟨fun h _ => h, fun h => h hlt'⟩
  · have hge : 256 ≤ index.toNat := Nat.le_of_not_lt hlt
    exact iff_of_true (decodes_request_beyond h hge _) fun hlt' => absurd hlt' (by omega)

/-- The gates that the functions for one vector install. -/
lemma install_follows (h : Decodes idt req) (vector : U8) (handler : U64)
    {gateType : GateType} {dpl : U8} (hplain : PlainGate gateType dpl) :
    Decodes (idt.setGate (vector.setWidth 64) handler gateType dpl)
        (Function.update req vector.toNat
          (IdtCall.gateValues handler gateType dpl (req vector.toNat))) ↔
      (req vector.toNat).ist = 0#8 := by
  have hindex : (vector.setWidth 64).toNat = vector.toNat :=
    BitVec.toNat_setWidth_of_le (by decide)
  have hset := setGate_follows h (vector.setWidth 64) handler gateType dpl
  rw [hindex] at hset
  rw [hset]
  exact ⟨fun himp => (himp vector.isLt).2, fun hist _ => ⟨hplain, hist⟩⟩

/-- The vector of a line. -/
lemma addWith_line (checks : Bool) {irq : U8} (h : irq.toNat < 224) :
    addWith checks irq 32#8 = some (irq + 32#8) ∧ (irq + 32#8).toNat = irq.toNat + 32 := by
  refine ⟨addWith_of_fits (by simp only [BitVec.toNat_ofNat]; omega), ?_⟩
  rw [BitVec.toNat_add, BitVec.toNat_ofNat]
  omega

/-- The gates that the functions for one line install. -/
lemma installLine_follows (h : Decodes idt req) {irq : U8} (hirq : irq.toNat < 224)
    (handler : U64) {gateType : GateType} {dpl : U8} (hplain : PlainGate gateType dpl) :
    (∃ idt', (addWith checks irq 32#8).map (fun vector =>
        idt.setGate (vector.setWidth 64) handler gateType dpl) = some idt' ∧
      Decodes idt' (Function.update req (irq.toNat + 32)
        (IdtCall.gateValues handler gateType dpl (req (irq.toNat + 32))))) ↔
      (req (irq.toNat + 32)).ist = 0#8 := by
  obtain ⟨hadd, hvector⟩ := addWith_line checks hirq
  have hinstall := install_follows h (irq + 32#8) handler hplain
  rw [hvector] at hinstall
  rw [hadd, Option.map_some, ← hinstall]
  simp

lemma plainGate_interrupt : PlainGate .interruptGate 0#8 := .inl ⟨rfl, rfl⟩

lemma plainGate_trap : PlainGate .trapGate 3#8 := .inr ⟨rfl, rfl⟩

/-- **`set_ist_for_vector`** does nothing for the last vector. -/
lemma setIst_follows (h : Decodes idt req) (vector istIndex : U8) :
    Decodes (idt.setIstForVector vector istIndex)
        (Function.update req vector.toNat { req vector.toNat with ist := istIndex }) ↔
      if vector = 255#8 then istIndex = (req 255).ist else istIndex.toNat < 8 := by
  rw [Idt.setIstForVector]
  split_ifs with hlt heq heq
  · subst heq
    exact absurd hlt (by decide)
  · rw [decodes_update h, ← and_seven_eq_iff, ← h vector, IdtEntry.decode, IdtEntry.decode,
      DecodedGate.mk.injEq]
    simp only [true_and]
  · subst heq
    rw [decodes_request_iff h]
    exact ⟨fun hreq => (congrArg DecodedGate.ist hreq).symm, fun hist => by rw [hist]; rfl⟩
  · have hmax := vector.isLt
    have hlast : vector.toNat = 255 := by
      have := Nat.le_of_not_lt (fun h => hlt (BitVec.lt_def.mpr h))
      simp only [BitVec.toNat_ofNat] at this
      omega
    exact absurd (BitVec.eq_of_toNat_eq hlast) heq

/-- **Which calls are followed**, of those for lines that have a vector. -/
lemma honoured_iff (h : Decodes idt req) {call : IdtCall}
    (hline : ∀ n, call.line = some n → n.toNat < 224) :
    call.Honoured req ↔
      ∃ idt', idtStep checks idt call = some idt' ∧ Decodes idt' (requestStep req call) := by
  cases call with
  | setGate index handler gateType dpl =>
    rw [IdtCall.Honoured, ← setGate_follows h index handler gateType dpl]
    simp [idtStep, requestStep, IdtCall.vector, IdtCall.values]
  | installIsr index handler =>
    rw [IdtCall.Honoured, ← install_follows h index handler plainGate_interrupt]
    simp [idtStep, requestStep, IdtCall.vector, IdtCall.values, Idt.installIsr]
  | installUserIsr index handler =>
    rw [IdtCall.Honoured, ← install_follows h index handler plainGate_trap]
    simp [idtStep, requestStep, IdtCall.vector, IdtCall.values, Idt.installUserIsr]
  | installIrqHandler irq handler =>
    have hirq := hline irq rfl
    rw [IdtCall.Honoured, ← installLine_follows h hirq handler plainGate_interrupt]
    exact and_iff_right hirq
  | installUserIrqHandler irq handler =>
    have hirq := hline irq rfl
    rw [IdtCall.Honoured, ← installLine_follows h hirq handler plainGate_trap]
    exact and_iff_right hirq
  | updateIdtEntry index offset selector ist typesAttr =>
    have hupdate := decodes_update h index
      ((idt index).setHandler offset typesAttr selector ist)
      ⟨offset, attrType typesAttr, attrDpl typesAttr, ist⟩
    rw [decode_setHandler, DecodedGate.mk.injEq] at hupdate
    rw [IdtCall.Honoured, ← and_seven_eq_iff]
    simp only [true_and] at hupdate
    rw [← hupdate]
    simp [idtStep, requestStep, IdtCall.vector, IdtCall.values, Idt.updateIdtEntry,
      IdtEntry.setHandler]
  | setIstForVector vector istIndex =>
    rw [IdtCall.Honoured, ← setIst_follows h vector istIndex]
    simp [idtStep, requestStep, IdtCall.vector, IdtCall.values]

end Calls

/-! ## Lines -/

section Lines

variable {checks : Bool} {idt idt' : Idt} {call : IdtCall} {n : U8}

/-- Both functions for lines compute the vector with 8 bits. -/
lemma idtStep_of_line (h : call.line = some n) :
    ∃ handler gateType dpl, ∀ checks idt, idtStep checks idt call =
      (addWith checks n 32#8).map fun vector =>
        idt.setGate (vector.setWidth 64) handler gateType dpl := by
  cases call with
  | installIrqHandler irq handler =>
    obtain rfl := Option.some.inj h
    exact ⟨handler, .interruptGate, 0#8, fun _ _ => rfl⟩
  | installUserIrqHandler irq handler =>
    obtain rfl := Option.some.inj h
    exact ⟨handler, .trapGate, 3#8, fun _ _ => rfl⟩
  | _ => cases h

lemma setGate_vector (idt : Idt) (vector : U8) (handler : U64) (gateType : GateType) (dpl : U8) :
    idt.setGate (vector.setWidth 64) handler gateType dpl =
      Function.update idt vector
        ((idt vector).setHandler handler (gateAttr gateType) 0x08#16 0#8) := by
  have hlt : vector.setWidth 64 < 256#64 := by
    rw [BitVec.lt_def, BitVec.toNat_setWidth_of_le (by decide)]
    exact vector.isLt
  have hback : (vector.setWidth 64).setWidth 8 = vector := by
    rw [BitVec.setWidth_setWidth_of_le _ (by decide), BitVec.setWidth_eq]
  rw [Idt.setGate, if_pos hlt, hback]

/-- A request for a line that has a vector changes only this vector. -/
lemma eq_of_line (h : call.line = some n) (hn : n.toNat < 224)
    (hstep : idtStep checks idt call = some idt') {v : U8} (hv : v.toNat ≠ n.toNat + 32) :
    idt' v = idt v := by
  obtain ⟨handler, gateType, dpl, hcall⟩ := idtStep_of_line h
  obtain ⟨hadd, hvector⟩ := addWith_line checks hn
  rw [hcall, hadd, Option.map_some, Option.some.injEq, setGate_vector] at hstep
  rw [← hstep, Function.update_of_ne]
  rintro rfl
  exact hv hvector

/-- **A line without a vector** stops the kernel or replaces another entry. -/
lemma line_overflows (h : call.line = some n) (hn : 224 ≤ n.toNat) :
    (∀ idt, idtStep true idt call = none) ∧
      ∃ idt', idtStep false (fun _ => .new) call = some idt' ∧
        idt' (n + 32#8) ≠ IdtEntry.new := by
  obtain ⟨handler, gateType, dpl, hcall⟩ := idtStep_of_line h
  have hover : n.uaddOverflow 32#8 = true := by
    simp only [BitVec.uaddOverflow, BitVec.toNat_ofNat, decide_eq_true_eq]
    omega
  refine ⟨fun idt => ?_,
    Idt.setGate (fun _ => .new) ((n + 32#8).setWidth 64) handler gateType dpl, ?_, ?_⟩
  · rw [hcall, addWith, hover]
    rfl
  · rw [hcall]
    rfl
  · rw [setGate_vector, Function.update_self]
    intro heq
    have hattr : gateAttr gateType = 0#8 := congrArg IdtEntry.typesAttr heq
    cases gateType <;> exact absurd hattr (by decide)

/-- The calls that store what they are asked to are for lines that have a vector. -/
lemma IdtCall.Honoured.line_lt {req : ℕ → DecodedGate} (h : call.Honoured req)
    (hline : call.line = some n) : n.toNat < 224 := by
  cases call with
  | installIrqHandler irq handler =>
    obtain rfl := Option.some.inj hline
    exact h.1
  | installUserIrqHandler irq handler =>
    obtain rfl := Option.some.inj hline
    exact h.1
  | _ => cases hline

/-- So are those of a table that stores everything. -/
lemma IdtStores.line_lt {calls : List IdtCall} (h : IdtStores checks idt calls)
    (hmem : call ∈ calls) (hline : call.line = some n) : n.toNat < 224 := by
  by_contra hn
  obtain ⟨hstops, fresh, hfresh, hchanged⟩ := line_overflows hline (Nat.le_of_not_lt hn)
  cases checks with
  | true =>
    obtain ⟨before, after, rfl⟩ := List.append_of_mem hmem
    obtain ⟨t, ht, -⟩ := h.follows (before ++ [call]) (by simp)
    rw [run_append, Option.bind_eq_some_iff] at ht
    obtain ⟨s, -, hlast⟩ := ht
    obtain ⟨s', hs', -⟩ := run_cons_eq_some.mp hlast
    rw [hstops s] at hs'
    cases hs'
  | false =>
    refine hchanged (h.lines call hmem n hline _ fresh hfresh (n + 32#8) ?_)
    rw [BitVec.toNat_add, BitVec.toNat_ofNat]
    omega

end Lines

lemma decodes_decoded (idt : Idt) : Decodes idt idt.decoded := by
  intro v
  rw [Idt.decoded, BitVec.ofNat_toNat, BitVec.setWidth_eq]

/-- **When the table stores what was requested**, whatever it contains in the beginning and with or
without overflow checks. -/
theorem idtStores_iff (checks : Bool) (idt : Idt) (calls : List IdtCall) :
    IdtStores checks idt calls ↔
      EachMeets IdtCall.Honoured requestStep idt.decoded calls := by
  have hexact : (∀ call ∈ calls, ∀ n, call.line = some n → n.toNat < 224) →
      (Follows Decodes (idtStep checks) requestStep idt idt.decoded calls ↔
        EachMeets IdtCall.Honoured requestStep idt.decoded calls) := fun hlines =>
    follows_iff_eachMeets (fun call hmem idt req h => honoured_iff h (hlines call hmem))
      (decodes_decoded idt)
  constructor
  · intro h
    exact (hexact fun call hmem n hline => h.line_lt hmem hline).mp h.follows
  · intro h
    have hlines : ∀ call ∈ calls, ∀ n, call.line = some n → n.toNat < 224 := by
      intro call hmem n hline
      obtain ⟨before, after, hsplit⟩ := List.append_of_mem hmem
      exact (h before call after hsplit).line_lt hline
    refine ⟨(hexact hlines).mpr h, fun call hmem n hline idt idt' hstep v hv => ?_⟩
    exact eq_of_line hline (hlines call hmem n hline) hstep hv

/-- **A system call gate**: an interrupt gate for user programs is installed for the kernel only.
Line 224 becomes vector 0, the division error. -/
theorem set_gate_ignores_dpl :
    ((Idt.setGate (fun _ => .new) 0x80#64 0x1000#64 .interruptGate 3#8) 0x80#8).decode =
        ⟨0x1000#64, 0xE#8, 0#8, 0#8⟩ ∧
      ¬ IdtStores false (fun _ => .new) [.setGate 0x80#64 0x1000#64 .interruptGate 3#8] ∧
      (∃ idt, idtStep false (fun _ => .new) (.installIrqHandler 224#8 0x1000#64) = some idt ∧
        (idt 0#8).decode = ⟨0x1000#64, 0xE#8, 0#8, 0#8⟩) ∧
      ¬ IdtStores false (fun _ => .new) [.installIrqHandler 224#8 0x1000#64] := by
  refine ⟨by decide, fun h => ?_, ⟨_, rfl, by decide⟩, fun h => ?_⟩
  · obtain ⟨t, ht, hdecodes⟩ := h.follows _ List.prefix_rfl
    obtain rfl := Option.some.inj ht
    exact absurd (congrArg DecodedGate.dpl (hdecodes 0x80#8)) (by decide)
  · have hline := h.line_lt List.mem_cons_self rfl
    exact absurd hline (by decide)

end Masika
