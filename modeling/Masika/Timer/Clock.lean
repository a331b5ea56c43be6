import Masika.Core.BitPacked
import Masika.Core.Overflow

/-!
# The clock

`timer.rs` counts ticks and knows how many of them make a second.  Everything else is computed from
these two numbers, each time as a product that is divided (`mulDiv`).

Three things are proved about the results.

* **The units.**  `uptime_ms` multiplies by 1000000 and `uptime_us` by 1000, where it should be the
  other way round.  So they agree with `uptime`, which is in nanoseconds, only as long as all of
  them but `uptime` are 0 (`unitsAgree_iff`).
* **The range.**  The product is computed in 64 bits.  When it does not fit, the result is wrong
  whether or not it would have fitted itself, because what is lost is more than any divisor
  (`returns_mulDiv_iff`).  As long as the products fit, the clock goes forward, and `time_since` and
  `sleep_ns` measure what they should (`timesExact_iff`).
* **The conversions.**  `ns_to_cycles` undoes `cycles_to_ns` up to what both round off, less than a
  nanosecond and a cycle (`conversions_near_inverse`).

A sleep is a loop that reads the clock again and again.  The ticks at each reading are a list here,
and a sleep that has not returned by the end of the list is still waiting.
-/

namespace Masika

/-! ## The code -/

/-- `a * b / d`, computed from left to right. -/
def mulDiv (checks : Bool) (a b d : U64) : Option U64 := (mulWith checks a b).map (· / d)

/-- The two statics, `TICKS` and `FREQUENCY`. -/
structure Clock where
  ticks : U64
  frequency : U64

/-- `struct timeval`. -/
structure TimeVal where
  sec : U64
  usec : U64

namespace Clock

variable (checks : Bool) (c : Clock)

/-- The ticks in units of which `scale` make a second. -/
def scaled (scale : U64) : Option U64 :=
  if c.frequency > 0#64 then mulDiv checks c.ticks scale c.frequency else some 0#64

/-- Nanoseconds since the start. -/
def uptime : Option U64 := c.scaled checks 1000000000#64

/-- Milliseconds since the start. -/
def uptimeMs : Option U64 := c.scaled checks 1000000#64

/-- Microseconds since the start. -/
def uptimeUs : Option U64 := c.scaled checks 1000#64

/-- The same under another name. -/
def timestampUs : Option U64 := c.uptimeUs checks

/-- The same under another name. -/
def timestampMs : Option U64 := c.uptimeMs checks

/-- Seconds and microseconds. -/
def getTimeval : Option TimeVal :=
  (c.uptime checks).map fun ns => ⟨ns / 1000000000#64, ns % 1000000000#64 / 1000#64⟩

/-- Cycles in nanoseconds. -/
def cyclesToNs (cycles : U64) : Option U64 :=
  if c.frequency > 0#64 then mulDiv checks cycles 1000000000#64 c.frequency else some 0#64

/-- Nanoseconds in cycles. -/
def nsToCycles (ns : U64) : Option U64 :=
  if c.frequency > 0#64 then mulDiv checks ns c.frequency 1000000000#64 else some 0#64

/-- The time since `startNs`, or zero. -/
def timeSince (startNs : U64) : Option U64 :=
  (c.uptime checks).map fun now => if now ≥ startNs then now - startNs else 0#64

end Clock

/-- How a sleep stands at the end of the readings. -/
inductive Sleep where
  | returned (ticks : U64)
  | waiting
  | panicked
deriving DecidableEq, Repr

/-- `while uptime() < target`, with the ticks at each reading. -/
def sleepUntil (checks : Bool) (frequency target : U64) : List U64 → Sleep
  | [] => .waiting
  | t :: later =>
    match (Clock.mk t frequency).uptime checks with
    | none => .panicked
    | some now => if now < target then sleepUntil checks frequency target later else .returned t

/-- `sleep_ns`, which reads the clock once before the loop. -/
def sleepNs (checks : Bool) (frequency ns : U64) (t : U64) (later : List U64) : Sleep :=
  match (do addWith checks (← (Clock.mk t frequency).uptime checks) ns) with
  | none => .panicked
  | some target => sleepUntil checks frequency target later

/-! ## Products that fit, and products that do not -/

section MulDiv

variable {checks : Bool} {a b d : U64}

lemma mulDiv_of_fits (h : a.toNat * b.toNat < 2 ^ 64) :
    mulDiv checks a b d = some (BitVec.ofNat 64 (a.toNat * b.toNat / d.toNat)) := by
  rw [mulDiv, mulWith_of_fits h, Option.map_some, Option.some.injEq]
  apply BitVec.eq_of_toNat_eq
  rw [BitVec.toNat_udiv, BitVec.toNat_mul, Nat.mod_eq_of_lt h, BitVec.toNat_ofNat,
    Nat.mod_eq_of_lt ((Nat.div_le_self _ _).trans_lt h)]

/-- The value `v` is returned, if it fits. -/
def Returns (result : Option U64) (v : ℕ) : Prop :=
  v < 2 ^ 64 → result = some (BitVec.ofNat 64 v)

/-- **The exact quotient is returned only if the product fits**: what is cut off the product is at
least `2 ^ 64`, and the divisor is less. -/
lemma returns_mulDiv_iff (hd : 0 < d.toNat) :
    Returns (mulDiv checks a b d) (a.toNat * b.toNat / d.toNat) ↔
      a.toNat * b.toNat < 2 ^ 64 ∨ 2 ^ 64 ≤ a.toNat * b.toNat / d.toNat := by
  constructor
  · intro h
    by_contra! hno
    obtain ⟨hover, hfits⟩ := hno
    have hsome := h hfits
    rw [mulDiv, Option.map_eq_some_iff] at hsome
    obtain ⟨p, hp, hquot⟩ := hsome
    obtain ⟨-, rfl⟩ := orStop_eq_some.mp hp
    have hnat := congrArg BitVec.toNat hquot
    rw [BitVec.toNat_udiv, BitVec.toNat_mul, BitVec.toNat_ofNat, Nat.mod_eq_of_lt hfits] at hnat
    have hmore : a.toNat * b.toNat % 2 ^ 64 + d.toNat ≤ a.toNat * b.toNat := by
      have := d.isLt
      have := Nat.mod_add_div (a.toNat * b.toNat) (2 ^ 64)
      have := Nat.div_pos hover (by decide)
      omega
    have hquots := Nat.div_le_div_right hmore (c := d.toNat)
    rw [Nat.add_div_right _ hd] at hquots
    omega
  · rintro (hfits | hbig) hv
    · exact mulDiv_of_fits hfits
    · omega

end MulDiv

/-! ## The units -/

/-- **The units agree**: `uptime_us` and `uptime_ms` are `uptime` in coarser units, and the time
stamps are those of `get_timeval`. -/
structure UnitsAgree (checks : Bool) (c : Clock) : Prop where
  us : c.uptimeUs checks = (c.uptime checks).map (· / 1000#64)
  ms : c.uptimeMs checks = (c.uptime checks).map (· / 1000000#64)
  timestampUs : c.timestampUs checks =
    (c.getTimeval checks).map fun tv => tv.sec * 1000000#64 + tv.usec
  timestampMs : c.timestampMs checks =
    (c.getTimeval checks).map fun tv => tv.sec * 1000#64 + tv.usec / 1000#64

section Units

variable {checks : Bool} {c : Clock}

lemma scaled_of_fits (hf : 0#64 < c.frequency) {scale : ℕ} (hscale : scale < 2 ^ 64)
    (h : c.ticks.toNat * scale < 2 ^ 64) :
    c.scaled checks (BitVec.ofNat 64 scale) =
      some (BitVec.ofNat 64 (c.ticks.toNat * scale / c.frequency.toNat)) := by
  have hnat : (BitVec.ofNat 64 scale).toNat = scale := by
    rw [BitVec.toNat_ofNat, Nat.mod_eq_of_lt hscale]
  rw [Clock.scaled, if_pos hf, mulDiv_of_fits (by rwa [hnat]), hnat]

/-- Dividing a quotient that fits. -/
lemma ofNat_udiv {v : ℕ} (hv : v < 2 ^ 64) (d : U64) :
    BitVec.ofNat 64 v / d = BitVec.ofNat 64 (v / d.toNat) := by
  apply BitVec.eq_of_toNat_eq
  rw [BitVec.toNat_udiv, BitVec.toNat_ofNat, BitVec.toNat_ofNat, Nat.mod_eq_of_lt hv,
    Nat.mod_eq_of_lt ((Nat.div_le_self _ _).trans_lt hv)]

lemma ofNat_inj_of_lt {v v' : ℕ} (hv : v < 2 ^ 64) (hv' : v' < 2 ^ 64) :
    BitVec.ofNat 64 v = BitVec.ofNat 64 v' ↔ v = v' := by
  rw [← BitVec.toNat_inj, BitVec.toNat_ofNat, BitVec.toNat_ofNat, Nat.mod_eq_of_lt hv,
    Nat.mod_eq_of_lt hv']

/-- The quotients of `uptime_ms` and `uptime_us` are the same only if both are 0. -/
lemma div_eq_div_thousand_iff {x f : ℕ} (hf : 0 < f) : x / f = x * 1000 / f ↔ x * 1000 < f := by
  constructor
  · intro h
    have hle : x / f * 1000 ≤ x * 1000 / f := by
      rw [Nat.le_div_iff_mul_le hf, Nat.mul_right_comm]
      exact Nat.mul_le_mul_right 1000 (Nat.div_mul_le_self x f)
    have hzero : x * 1000 / f = 0 := by omega
    exact (Nat.div_eq_zero_iff_lt hf).mp hzero
  · intro h
    rw [Nat.div_eq_of_lt h, Nat.div_eq_of_lt (by omega)]

/-- Whole units of `a * b`, and the rest in units of `a`. -/
lemma udiv_split {a b : ℕ} (ns : U64) (hab : a * b < 2 ^ 64) (ha : 0 < a) (hb : 0 < b) :
    ns / BitVec.ofNat 64 (a * b) * BitVec.ofNat 64 b +
        ns % BitVec.ofNat 64 (a * b) / BitVec.ofNat 64 a = ns / BitVec.ofNat 64 a := by
  have hnat : ∀ {k : ℕ}, k ≤ a * b → (BitVec.ofNat 64 k).toNat = k := fun hk => by
    rw [BitVec.toNat_ofNat, Nat.mod_eq_of_lt (hk.trans_lt hab)]
  have hsplit : ns.toNat / (a * b) * b + ns.toNat % (a * b) / a = ns.toNat / a := by
    rw [Nat.mod_mul_right_div_self, ← Nat.div_div_eq_div_mul, Nat.div_add_mod']
  apply BitVec.eq_of_toNat_eq
  rw [BitVec.toNat_add, BitVec.toNat_mul, BitVec.toNat_udiv, BitVec.toNat_udiv, BitVec.toNat_udiv,
    BitVec.toNat_umod, hnat (Nat.le_refl _), hnat (Nat.le_mul_of_pos_right a hb),
    hnat (Nat.le_mul_of_pos_left b ha), Nat.mod_add_mod, hsplit,
    Nat.mod_eq_of_lt ((Nat.div_le_self _ _).trans_lt ns.isLt)]

/-- The two parts of `get_timeval` put together again. -/
lemma map_getTimeval (checks : Bool) (c : Clock) :
    (c.getTimeval checks).map (fun tv => tv.sec * 1000000#64 + tv.usec) =
        (c.uptime checks).map (· / 1000#64) ∧
      (c.getTimeval checks).map (fun tv => tv.sec * 1000#64 + tv.usec / 1000#64) =
        (c.uptime checks).map (· / 1000000#64) := by
  rw [Clock.getTimeval, Option.map_map, Option.map_map]
  constructor
  · refine congrArg (Option.map · _) (funext fun ns => ?_)
    exact udiv_split (a := 1000) (b := 1000000) ns (by decide) (by decide) (by decide)
  · refine congrArg (Option.map · _) (funext fun ns => ?_)
    have htwice : ∀ x : U64, x / 1000#64 / 1000#64 = x / 1000000#64 := by
      intro x
      apply BitVec.eq_of_toNat_eq
      rw [BitVec.toNat_udiv, BitVec.toNat_udiv, BitVec.toNat_udiv, Nat.div_div_eq_div_mul]
      rfl
    simp only [Function.comp_apply, htwice]
    exact udiv_split (a := 1000000) (b := 1000) ns (by decide) (by decide) (by decide)

lemma uptime_of_fits (hf : 0#64 < c.frequency) (hfits : c.ticks.toNat * 10 ^ 9 < 2 ^ 64) :
    c.uptime checks = some (BitVec.ofNat 64 (c.ticks.toNat * 10 ^ 9 / c.frequency.toNat)) :=
  scaled_of_fits hf (by decide) hfits

/-- `uptime` in a coarser unit, of which `scale` make a second. -/
lemma map_uptime_div (hf : 0#64 < c.frequency) (hfits : c.ticks.toNat * 10 ^ 9 < 2 ^ 64)
    {scale unit : ℕ} (hunit : scale * unit = 10 ^ 9) :
    (c.uptime checks).map (· / BitVec.ofNat 64 unit) =
      some (BitVec.ofNat 64 (c.ticks.toNat * scale / c.frequency.toNat)) := by
  have hpos : 0 < unit := Nat.pos_of_ne_zero (by rintro rfl; simp at hunit)
  have hle : unit ≤ 10 ^ 9 := Nat.le_of_dvd (by decide) ⟨scale, by rw [← hunit, Nat.mul_comm]⟩
  have hnat : (BitVec.ofNat 64 unit).toNat = unit := by
    rw [BitVec.toNat_ofNat, Nat.mod_eq_of_lt (hle.trans_lt (by decide))]
  rw [uptime_of_fits hf hfits, Option.map_some,
    ofNat_udiv ((Nat.div_le_self _ _).trans_lt hfits), hnat, Nat.div_div_eq_div_mul, ← hunit,
    ← Nat.mul_assoc, Nat.mul_div_mul_right _ _ hpos]

/-- **When the units agree**: no microsecond has passed. -/
theorem unitsAgree_iff (checks : Bool) {c : Clock} (hf : 0#64 < c.frequency)
    (hfits : c.ticks.toNat * 10 ^ 9 < 2 ^ 64) :
    UnitsAgree checks c ↔ c.ticks.toNat * 10 ^ 6 < c.frequency.toNat := by
  have hpos : 0 < c.frequency.toNat := hf
  have hsmaller : ∀ {scale : ℕ}, scale ≤ 10 ^ 9 → c.ticks.toNat * scale < 2 ^ 64 := fun h =>
    (Nat.mul_le_mul_left _ h).trans_lt hfits
  -- what they are, and what they should be
  have hus : c.uptimeUs checks =
      some (BitVec.ofNat 64 (c.ticks.toNat * 10 ^ 3 / c.frequency.toNat)) :=
    scaled_of_fits hf (by decide) (hsmaller (by decide))
  have hms : c.uptimeMs checks =
      some (BitVec.ofNat 64 (c.ticks.toNat * 10 ^ 6 / c.frequency.toNat)) :=
    scaled_of_fits hf (by decide) (hsmaller (by decide))
  have hus' : (c.uptime checks).map (· / 1000#64) =
      some (BitVec.ofNat 64 (c.ticks.toNat * 10 ^ 6 / c.frequency.toNat)) :=
    map_uptime_div hf hfits (by decide)
  have hms' : (c.uptime checks).map (· / 1000000#64) =
      some (BitVec.ofNat 64 (c.ticks.toNat * 10 ^ 3 / c.frequency.toNat)) :=
    map_uptime_div hf hfits (by decide)
  have hiff : BitVec.ofNat 64 (c.ticks.toNat * 10 ^ 3 / c.frequency.toNat) =
      BitVec.ofNat 64 (c.ticks.toNat * 10 ^ 6 / c.frequency.toNat) ↔
        c.ticks.toNat * 10 ^ 6 < c.frequency.toNat := by
    have hthousand := div_eq_div_thousand_iff hpos (x := c.ticks.toNat * 10 ^ 3)
    rw [Nat.mul_assoc] at hthousand
    rw [ofNat_inj_of_lt ((Nat.div_le_self _ _).trans_lt (hsmaller (by decide)))
      ((Nat.div_le_self _ _).trans_lt (hsmaller (by decide)))]
    exact hthousand
  obtain ⟨htvUs, htvMs⟩ := map_getTimeval checks c
  constructor
  · intro h
    exact hiff.mp (Option.some.inj (hus.symm.trans (h.us.trans hus')))
  · intro h
    have hsame := hiff.mpr h
    have huseq : c.uptimeUs checks = (c.uptime checks).map (· / 1000#64) := by rw [hus, hus', hsame]
    have hmseq : c.uptimeMs checks = (c.uptime checks).map (· / 1000000#64) := by
      rw [hms, hms', hsame]
    exact ⟨huseq, hmseq, huseq.trans htvUs.symm, hmseq.trans htvMs.symm⟩

/-- Half a microsecond after the start of a clock of 2 MHz. -/
theorem unitsAgree_first_tick : UnitsAgree true ⟨1#64, 2000000#64⟩ :=
  (unitsAgree_iff true (by decide) (by decide)).mpr (by decide)

/-- **After one second**, of a clock of 1 kHz: 1000 microseconds and 1000000 milliseconds. -/
theorem units_swapped :
    (Clock.mk 1000#64 1000#64).uptimeUs true = some 1000#64 ∧
      (Clock.mk 1000#64 1000#64).uptimeMs true = some 1000000#64 ∧
      (Clock.mk 1000#64 1000#64).uptime true = some 1000000000#64 ∧
      ¬ UnitsAgree true ⟨1000#64, 1000#64⟩ := by
  refine ⟨by decide, by decide, by decide, fun h => ?_⟩
  exact absurd h.us (by decide)

end Units

/-! ## The range -/

/-- The nanoseconds in `t` ticks or cycles. -/
def exactNs (t f : U64) : ℕ := t.toNat * 10 ^ 9 / f.toNat

/-- The cycles in `ns` nanoseconds. -/
def exactCycles (ns f : U64) : ℕ := ns.toNat * f.toNat / 10 ^ 9

/-- **Times are exact**, for a clock that is read at the tick `t` and again at those in `later`:
the values that fit are returned; hence the clock does not go back, and `time_since` and `sleep_ns`
measure the time since the first reading. -/
structure TimesExact (checks : Bool) (f t : U64) (later : List U64) (cycles ns : U64) : Prop where
  uptime : ∀ t' ∈ t :: later, Returns ((Clock.mk t' f).uptime checks) (exactNs t' f)
  cyclesToNs : Returns ((Clock.mk t f).cyclesToNs checks cycles) (exactNs cycles f)
  nsToCycles : Returns ((Clock.mk t f).nsToCycles checks ns) (exactCycles ns f)
  increasing : ∀ t₁ ∈ t :: later, ∀ t₂ ∈ t :: later, t₁ ≤ t₂ → exactNs t₂ f < 2 ^ 64 →
    ∃ u₁ u₂, (Clock.mk t₁ f).uptime checks = some u₁ ∧ (Clock.mk t₂ f).uptime checks = some u₂ ∧
      u₁ ≤ u₂
  timeSince : ∀ t' ∈ later, t ≤ t' → exactNs t' f < 2 ^ 64 →
    ∀ start, (Clock.mk t f).uptime checks = some start →
      (Clock.mk t' f).timeSince checks start =
        some (BitVec.ofNat 64 (exactNs t' f - exactNs t f))
  sleepNs : (∀ t' ∈ t :: later, exactNs t' f < 2 ^ 64) → exactNs t f + ns.toNat < 2 ^ 64 →
    sleepNs checks f ns t later =
      ((later.find? fun t' => exactNs t f + ns.toNat ≤ exactNs t' f).map Sleep.returned).getD
        .waiting

section Range

variable {checks : Bool} {f t t' : U64}

lemma exactNs_mono (h : t ≤ t') : exactNs t f ≤ exactNs t' f :=
  Nat.div_le_div_right (Nat.mul_le_mul_right _ h)

/-- The clock is read correctly at `t`. -/
def ReadsExact (checks : Bool) (f t : U64) : Prop :=
  (Clock.mk t f).uptime checks = some (BitVec.ofNat 64 (exactNs t f))

/-- **A sleep returns at the first reading that is late enough.** -/
lemma sleepUntil_eq {target : ℕ} (htarget : target < 2 ^ 64) {later : List U64}
    (hexact : ∀ t' ∈ later, ReadsExact checks f t') (hfits : ∀ t' ∈ later, exactNs t' f < 2 ^ 64) :
    sleepUntil checks f (BitVec.ofNat 64 target) later =
      ((later.find? fun t' => target ≤ exactNs t' f).map Sleep.returned).getD .waiting := by
  induction later with
  | nil => rfl
  | cons t later ih =>
    rw [List.forall_mem_cons] at hexact hfits
    have hread : (Clock.mk t f).uptime checks = some (BitVec.ofNat 64 (exactNs t f)) := hexact.1
    have hlt : BitVec.ofNat 64 (exactNs t f) < BitVec.ofNat 64 target ↔ exactNs t f < target := by
      rw [BitVec.lt_def, BitVec.toNat_ofNat, BitVec.toNat_ofNat, Nat.mod_eq_of_lt hfits.1,
        Nat.mod_eq_of_lt htarget]
    rw [sleepUntil, hread]
    simp only [hlt]
    by_cases hearly : exactNs t f < target
    · rw [if_pos hearly, ih hexact.2 hfits.2, List.find?_cons_of_neg (by simpa using hearly)]
    · rw [if_neg hearly, List.find?_cons_of_pos (by simpa using hearly)]
      rfl

/-- The clock goes forward. -/
lemma uptime_le_uptime (hread : ReadsExact checks f t) (hread' : ReadsExact checks f t')
    (hle : t ≤ t') (hfits : exactNs t' f < 2 ^ 64) :
    ∃ u u', (Clock.mk t f).uptime checks = some u ∧ (Clock.mk t' f).uptime checks = some u' ∧
      u ≤ u' := by
  refine ⟨_, _, hread, hread', ?_⟩
  have hmono := exactNs_mono hle (f := f)
  rw [BitVec.le_def, BitVec.toNat_ofNat, BitVec.toNat_ofNat, Nat.mod_eq_of_lt hfits,
    Nat.mod_eq_of_lt (by omega)]
  exact hmono

/-- `time_since` measures the time between two readings. -/
lemma timeSince_eq (hread : ReadsExact checks f t) (hread' : ReadsExact checks f t')
    (hle : t ≤ t') (hfits : exactNs t' f < 2 ^ 64) {start : U64}
    (hstart : (Clock.mk t f).uptime checks = some start) :
    (Clock.mk t' f).timeSince checks start =
      some (BitVec.ofNat 64 (exactNs t' f - exactNs t f)) := by
  obtain rfl := Option.some.inj (hread.symm.trans hstart)
  have hmono := exactNs_mono hle (f := f)
  have hbefore : BitVec.ofNat 64 (exactNs t f) ≤ BitVec.ofNat 64 (exactNs t' f) := by
    rw [BitVec.le_def, BitVec.toNat_ofNat, BitVec.toNat_ofNat, Nat.mod_eq_of_lt hfits,
      Nat.mod_eq_of_lt (by omega)]
    exact hmono
  rw [Clock.timeSince, hread', Option.map_some, if_pos hbefore, Option.some.injEq]
  apply BitVec.eq_of_toNat_eq
  rw [BitVec.toNat_sub_of_le hbefore]
  simp only [BitVec.toNat_ofNat]
  omega

/-- `sleep_ns` measures the time since it was called. -/
lemma sleepNs_eq {ns : U64} {later : List U64} (hread : ReadsExact checks f t)
    (hexact : ∀ t' ∈ later, ReadsExact checks f t') (hfits : ∀ t' ∈ later, exactNs t' f < 2 ^ 64)
    (htarget : exactNs t f + ns.toNat < 2 ^ 64) :
    sleepNs checks f ns t later =
      ((later.find? fun t' => exactNs t f + ns.toNat ≤ exactNs t' f).map Sleep.returned).getD
        .waiting := by
  have hnat : (BitVec.ofNat 64 (exactNs t f)).toNat = exactNs t f := by
    rw [BitVec.toNat_ofNat, Nat.mod_eq_of_lt (by omega)]
  have hsum : BitVec.ofNat 64 (exactNs t f) + ns = BitVec.ofNat 64 (exactNs t f + ns.toNat) := by
    rw [BitVec.ofNat_add, BitVec.ofNat_toNat, BitVec.setWidth_eq]
  have hread : (Clock.mk t f).uptime checks = some (BitVec.ofNat 64 (exactNs t f)) := hread
  rw [sleepNs, hread]
  simp only [Option.bind_eq_bind, Option.bind_some]
  rw [addWith_of_fits (by rwa [hnat]), hsum]
  exact sleepUntil_eq htarget hexact hfits

end Range

/-- **When times are exact**: every product fits, unless the quotient does not. -/
theorem timesExact_iff (checks : Bool) {f : U64} (hf : 0#64 < f) (t : U64) (later : List U64)
    (cycles ns : U64) :
    TimesExact checks f t later cycles ns ↔
      (∀ x ∈ cycles :: t :: later, x.toNat * 10 ^ 9 < 2 ^ 64 ∨ 2 ^ 64 ≤ exactNs x f) ∧
        (ns.toNat * f.toNat < 2 ^ 64 ∨ 2 ^ 64 ≤ exactCycles ns f) := by
  have hpos : 0 < f.toNat := hf
  have huptime : ∀ x, Returns ((Clock.mk x f).uptime checks) (exactNs x f) ↔
      x.toNat * 10 ^ 9 < 2 ^ 64 ∨ 2 ^ 64 ≤ exactNs x f := by
    intro x
    rw [Clock.uptime, Clock.scaled, if_pos hf]
    exact returns_mulDiv_iff hpos
  have hcycles : Returns ((Clock.mk t f).cyclesToNs checks cycles) (exactNs cycles f) ↔
      cycles.toNat * 10 ^ 9 < 2 ^ 64 ∨ 2 ^ 64 ≤ exactNs cycles f := by
    rw [Clock.cyclesToNs, if_pos hf]
    exact returns_mulDiv_iff hpos
  have hns : Returns ((Clock.mk t f).nsToCycles checks ns) (exactCycles ns f) ↔
      ns.toNat * f.toNat < 2 ^ 64 ∨ 2 ^ 64 ≤ exactCycles ns f := by
    rw [Clock.nsToCycles, if_pos hf]
    exact returns_mulDiv_iff (show 0 < 1000000000 by decide)
  rw [List.forall_mem_cons, ← hcycles, ← hns]
  simp only [← huptime]
  constructor
  · intro h
    exact ⟨⟨h.cyclesToNs, h.uptime⟩, h.nsToCycles⟩
  · rintro ⟨⟨hc, hread⟩, hn⟩
    have hexact : ∀ x ∈ t :: later, exactNs x f < 2 ^ 64 → ReadsExact checks f x := hread
    refine ⟨hread, hc, hn, fun t₁ h₁ t₂ h₂ hle hfits => ?_, fun t' ht' hle hfits start hs => ?_,
      fun hfits htarget => ?_⟩
    · exact uptime_le_uptime (hexact t₁ h₁ ((exactNs_mono hle).trans_lt hfits))
        (hexact t₂ h₂ hfits) hle hfits
    · exact timeSince_eq (hexact t List.mem_cons_self ((exactNs_mono hle).trans_lt hfits))
        (hexact t' (List.mem_cons_of_mem t ht') hfits) hle hfits hs
    · rw [List.forall_mem_cons] at hfits hexact
      exact sleepNs_eq (hexact.1 hfits.1) (fun t' ht' => hexact.2 t' ht' (hfits.2 t' ht')) hfits.2
        htarget

/-- The first microseconds of a clock of 1 GHz. -/
theorem timesExact_first_ticks :
    TimesExact true 1000000000#64 5#64 [700#64, 1000#64] 2000#64 900#64 := by
  refine (timesExact_iff true (by decide) _ _ _ _).mpr ⟨?_, .inl (by decide)⟩
  rw [List.forall_mem_cons, List.forall_mem_cons, List.forall_mem_cons, List.forall_mem_singleton]
  exact ⟨.inl (by decide), .inl (by decide), .inl (by decide), .inl (by decide)⟩

/-- **After 18 seconds of a clock of 1 GHz** the uptime starts again from 0, or the kernel stops if
overflows are checked for. -/
theorem uptime_goes_back :
    (Clock.mk 18446744073#64 1000000000#64).uptime false = some 18446744073#64 ∧
      (Clock.mk 18446744074#64 1000000000#64).uptime false = some 0#64 ∧
      (Clock.mk 18446744074#64 1000000000#64).uptime true = none ∧
      ¬ TimesExact false 1000000000#64 18446744073#64 [18446744074#64] 0#64 0#64 := by
  refine ⟨by decide, by decide, by decide, fun h => ?_⟩
  have hlast := h.uptime 18446744074#64 (by decide) (by decide +kernel)
  exact absurd hlast (by decide)

/-! ## The conversions -/

section Conversions

variable {checks : Bool} {clock : Clock} {c n n' : U64}

lemma exactCycles_mono {f : U64} (h : n ≤ n') : exactCycles n f ≤ exactCycles n' f :=
  Nat.div_le_div_right (Nat.mul_le_mul_right _ h)

/-- The quotient of a product that fits. -/
lemma exists_mulDiv_of_fits {a b : U64} (d : U64) (h : a.toNat * b.toNat < 2 ^ 64) :
    ∃ q, mulDiv checks a b d = some q ∧ q.toNat = a.toNat * b.toNat / d.toNat := by
  refine ⟨_, mulDiv_of_fits h, ?_⟩
  rw [BitVec.toNat_ofNat, Nat.mod_eq_of_lt ((Nat.div_le_self _ _).trans_lt h)]

lemma exists_cyclesToNs (hf : 0#64 < clock.frequency) (h : c.toNat * 10 ^ 9 < 2 ^ 64) :
    ∃ q, clock.cyclesToNs checks c = some q ∧ q.toNat = exactNs c clock.frequency := by
  rw [Clock.cyclesToNs, if_pos hf]
  exact exists_mulDiv_of_fits clock.frequency h

lemma exists_nsToCycles (hf : 0#64 < clock.frequency)
    (h : n.toNat * clock.frequency.toNat < 2 ^ 64) :
    ∃ q, clock.nsToCycles checks n = some q ∧ q.toNat = exactCycles n clock.frequency := by
  rw [Clock.nsToCycles, if_pos hf]
  exact exists_mulDiv_of_fits 1000000000#64 h

/-- Two divisions that round down, with the second one undoing the first: nothing is gained, and
less is lost than one unit of each. -/
lemma mul_div_mul_div_bounds {c f g : ℕ} (hf : 0 < f) (hg : 0 < g) :
    c * g / f * f / g ≤ c ∧ (c - c * g / f * f / g) * g < f + g := by
  have hdown : c * g / f * f ≤ c * g := Nat.div_mul_le_self (c * g) f
  have hlost : c * g < c * g / f * f + f := Nat.lt_div_mul_add hf
  have hlost' : c * g / f * f < c * g / f * f / g * g + g := Nat.lt_div_mul_add hg
  refine ⟨Nat.div_le_of_le_mul (by rwa [Nat.mul_comm g c]), ?_⟩
  rw [Nat.sub_mul]
  omega

end Conversions

/-- **The conversions undo each other** up to what they round off, and are monotone, wherever the
products fit.  The product of the second conversion fits if that of the first does. -/
theorem conversions_near_inverse (checks : Bool) (clock : Clock) (hf : 0#64 < clock.frequency) :
    (∀ c : U64, c.toNat * 10 ^ 9 < 2 ^ 64 →
      ∃ n k, clock.cyclesToNs checks c = some n ∧ clock.nsToCycles checks n = some k ∧ k ≤ c ∧
        (c.toNat - k.toNat) * 10 ^ 9 < clock.frequency.toNat + 10 ^ 9) ∧
    (∀ c c' : U64, c ≤ c' → c'.toNat * 10 ^ 9 < 2 ^ 64 →
      ∃ n n', clock.cyclesToNs checks c = some n ∧ clock.cyclesToNs checks c' = some n' ∧ n ≤ n') ∧
    ∀ n n' : U64, n ≤ n' → n'.toNat * clock.frequency.toNat < 2 ^ 64 →
      ∃ k k', clock.nsToCycles checks n = some k ∧ clock.nsToCycles checks n' = some k' ∧
        k ≤ k' := by
  have hpos : 0 < clock.frequency.toNat := hf
  refine ⟨fun c hc => ?_, fun c c' hle hc' => ?_, fun n n' hle hn' => ?_⟩
  · obtain ⟨n, hn, hnat⟩ := exists_cyclesToNs hf hc
    have hfits : n.toNat * clock.frequency.toNat < 2 ^ 64 := by
      rw [hnat]
      exact (Nat.div_mul_le_self _ _).trans_lt hc
    obtain ⟨k, hk, hknat⟩ := exists_nsToCycles hf hfits
    rw [exactCycles, hnat, exactNs] at hknat
    have hbounds := mul_div_mul_div_bounds (c := c.toNat) hpos (show 0 < 10 ^ 9 by decide)
    rw [← hknat] at hbounds
    exact ⟨n, k, hn, hk, hbounds⟩
  · obtain ⟨n', hn', hnat'⟩ := exists_cyclesToNs hf hc'
    obtain ⟨n, hn, hnat⟩ := exists_cyclesToNs hf
      ((Nat.mul_le_mul_right _ hle).trans_lt hc')
    refine ⟨n, n', hn, hn', BitVec.le_def.mpr ?_⟩
    rw [hnat, hnat']
    exact exactNs_mono hle
  · obtain ⟨k', hk', hnat'⟩ := exists_nsToCycles hf hn'
    obtain ⟨k, hk, hnat⟩ := exists_nsToCycles hf
      ((Nat.mul_le_mul_right _ hle).trans_lt hn')
    refine ⟨k, k', hk, hk', BitVec.le_def.mpr ?_⟩
    rw [hnat, hnat']
    exact exactCycles_mono hle

/-- On a clock of 3 GHz, ten cycles are 3 ns, and these are nine cycles. -/
theorem conversions_near_inverse_3GHz :
    ∃ n k, (Clock.mk 0#64 3000000000#64).cyclesToNs true 10#64 = some n ∧
      (Clock.mk 0#64 3000000000#64).nsToCycles true n = some k ∧ k ≤ 10#64 ∧
      ((10#64).toNat - k.toNat) * 10 ^ 9 < (3000000000#64).toNat + 10 ^ 9 :=
  (conversions_near_inverse true ⟨0#64, 3000000000#64⟩ (by decide)).1 10#64 (by decide)

end Masika
