import Mathlib.Data.Nat.Digits.Lemmas
import Masika.Console.Buffer

/-!
# How numbers are printed

`write_dec`, `write_octal` and `write_binary` store the digits of a number in a local array, the
last digit first, and write the array out backwards.  `IsNumeral` says what has to come out, without
the array: the digits of the number in the base, with no zero in front, and there is only one such
list of bytes (`IsNumeral.eq_numeral`).

This is true wherever the cursor is.  When it is not on the screen, `write_byte` writes beyond the
text buffer, but it still sends every byte to the serial line.
-/

namespace Masika

/-! ## Numerals -/

/-- The number that is read from a list of digits. -/
def readNumeral (base : ℕ) (digits : List U8) : ℕ :=
  digits.foldl (fun n c => n * base + (c.toNat - 0x30)) 0

/-- The bytes are the canonical numeral of `n`. -/
structure IsNumeral (base n : ℕ) (digits : List U8) : Prop where
  ne_nil : digits ≠ []
  digit : ∀ c ∈ digits, ∃ d < base, c = asciiDigit d
  leading : digits.head? = some (asciiDigit 0) → digits = [asciiDigit 0]
  value : readNumeral base digits = n

section Numerals

variable {base n d : ℕ}

lemma toNat_asciiDigit (h : d < 10) : (asciiDigit d).toNat = 0x30 + d := by
  rw [asciiDigit, BitVec.toNat_ofNat]
  omega

lemma asciiDigit_inj {d' : ℕ} (h : d < 10) (h' : d' < 10) (heq : asciiDigit d = asciiDigit d') :
    d = d' := by
  have hnat := congrArg BitVec.toNat heq
  rw [toNat_asciiDigit h, toNat_asciiDigit h'] at hnat
  omega

lemma readNumeral_zero : readNumeral base [asciiDigit 0] = 0 := by simp [readNumeral, asciiDigit]

/-- Reading digits back: the first digit of the numeral is the last one for `Nat.ofDigits`. -/
lemma readNumeral_map_reverse {ds : List ℕ} (hds : ∀ d ∈ ds, d < 10) :
    readNumeral base (ds.map asciiDigit).reverse = Nat.ofDigits base ds := by
  rw [readNumeral, List.foldl_reverse]
  induction ds with
  | nil => rfl
  | cons d ds ih =>
    rw [List.forall_mem_cons] at hds
    rw [List.map_cons, List.foldr_cons, ih hds.2, toNat_asciiDigit hds.1, Nat.ofDigits_cons,
      Nat.add_sub_cancel_left, Nat.mul_comm, Nat.add_comm]

lemma head?_reverse_map_digits (hbase : 1 < base) (hten : base ≤ 10) (hn : n ≠ 0) :
    ((Nat.digits base n).map asciiDigit).reverse.head? ≠ some (asciiDigit 0) := by
  have hne : Nat.digits base n ≠ [] := Nat.digits_ne_nil_iff_ne_zero.mpr hn
  rw [List.head?_reverse, List.getLast?_map, List.getLast?_eq_some_getLast hne, Option.map_some,
    Ne, Option.some.injEq]
  intro heq
  have hlast := Nat.digits_lt_base hbase (List.getLast_mem hne)
  exact Nat.getLast_digit_ne_zero base hn
    (asciiDigit_inj (hlast.trans_le hten) (by decide) heq)

lemma isNumeral_numeral (hbase : 1 < base) (hten : base ≤ 10) (n : ℕ) :
    IsNumeral base n (numeral base n) := by
  rw [numeral]
  split_ifs with hn
  · subst hn
    refine ⟨by simp, ?_, fun _ => rfl, readNumeral_zero⟩
    rw [List.forall_mem_singleton]
    exact ⟨0, by omega, rfl⟩
  · have hlt : ∀ d ∈ Nat.digits base n, d < base := fun d hd => Nat.digits_lt_base hbase hd
    refine ⟨?_, fun c hc => ?_, fun h => ?_, ?_⟩
    · simpa [Nat.digits_ne_nil_iff_ne_zero] using hn
    · rw [List.mem_reverse, List.mem_map] at hc
      obtain ⟨d, hd, rfl⟩ := hc
      exact ⟨d, hlt d hd, rfl⟩
    · exact absurd h (head?_reverse_map_digits hbase hten hn)
    · rw [readNumeral_map_reverse fun d hd => (hlt d hd).trans_le hten, Nat.ofDigits_digits]

lemma exists_map_asciiDigit {digits : List U8} (h : ∀ c ∈ digits, ∃ d < base, c = asciiDigit d) :
    ∃ ds : List ℕ, (∀ d ∈ ds, d < base) ∧ digits = (ds.map asciiDigit).reverse := by
  induction digits with
  | nil => exact ⟨[], by simp, rfl⟩
  | cons c digits ih =>
    rw [List.forall_mem_cons] at h
    obtain ⟨⟨d, hd, rfl⟩, htail⟩ := h
    obtain ⟨ds, hds, rfl⟩ := ih htail
    refine ⟨ds ++ [d], ?_, by simp⟩
    rw [List.forall_mem_append, List.forall_mem_singleton]
    exact ⟨hds, hd⟩

/-- **There is only one numeral of a number.** -/
lemma IsNumeral.eq_numeral {digits : List U8} (hbase : 1 < base) (hten : base ≤ 10)
    (h : IsNumeral base n digits) : digits = numeral base n := by
  obtain ⟨ds, hds, rfl⟩ := exists_map_asciiDigit h.digit
  have hvalue := h.value
  rw [readNumeral_map_reverse fun d hd => (hds d hd).trans_le hten] at hvalue
  by_cases hlead : ((ds.map asciiDigit).reverse).head? = some (asciiDigit 0)
  · have hzero := h.leading hlead
    have hn : n = 0 := by rw [← h.value, hzero, readNumeral_zero]
    rw [hzero, numeral, if_pos hn]
  · have hdigits : Nat.digits base n = ds := by
      rw [← hvalue]
      refine Nat.digits_ofDigits base hbase ds hds fun hne hzero => hlead ?_
      rw [List.head?_reverse, List.getLast?_map, List.getLast?_eq_some_getLast hne,
        Option.map_some, hzero]
    have hn : n ≠ 0 := by
      rintro rfl
      rw [Nat.digits_zero] at hdigits
      subst hdigits
      exact h.ne_nil rfl
    rw [numeral, if_neg hn, hdigits]

lemma length_numeral_le {len : ℕ} (hbase : 1 < base) (hlen : 0 < len) (hn : n < base ^ len) :
    (numeral base n).length ≤ len := by
  rw [numeral]
  split_ifs with hzero
  · exact hlen
  · rw [List.length_reverse, List.length_map]
    exact (Nat.digits_length_le_iff hbase n).mpr hn

end Numerals

/-! ## Bytes that are written wherever the cursor is -/

section Anywhere

variable (c : BufferedConsole) (vga : Vga)

/-- The console is `v`, which may have its cursor anywhere. -/
def LooksLike (v : VgaConsole) (c : BufferedConsole) (vga : Vga) : Prop := c.view vga = v

lemma newline_anywhere : c.newline.Ends (fun _ _ => True) vga (LooksLike (c.view vga).newline) :=
  ((newline_ends c vga).permit fun _ _ _ => trivial).mono fun _ _ h => h.view

lemma writeByte_anywhere (byte : U8) :
    (c.writeByte byte).Ends (fun _ _ => True) vga (LooksLike ((c.view vga).writeByte byte)) := by
  refine .ite (fun _ => ?_) fun _ => ?_
  · exact newline_anywhere (c.uartPutc byte) vga
  · refine .bind (.bind (.store trivial (.store trivial ?_)))
    refine .ite (fun _ => ?_) fun _ => ?_
    · exact newline_anywhere _ _
    · exact .pure rfl

lemma writeBytes_anywhere (bytes : List U8) :
    (bytes.foldlM BufferedConsole.writeByte c : ConsoleProgram BufferedConsole).Ends
      (fun _ _ => True) vga (LooksLike ((c.view vga).writeBytes bytes)) := by
  refine .foldlM bytes (fun byte _ v c vga h => ?_) rfl
  rw [LooksLike] at h
  subst h
  exact writeByte_anywhere c vga byte

end Anywhere

/-! ## The numbers -/

/-- **The numbers are printed** by `write` in the base `base`: on every console, exactly the bytes
of the numeral are written, one after the other, and no index reaches the end of the array of `len`
bytes, which the program would leave with an error for. -/
structure PrintsNumbers (base len : ℕ)
    (write : BufferedConsole → U64 → ConsoleProgram BufferedConsole) : Prop where
  digits : ∀ n : U64, ∃! digits, IsNumeral base n.toNat digits
  written : ∀ (n : U64) digits, IsNumeral base n.toNat digits → ∀ c,
    write c n = digits.foldlM BufferedConsole.writeByte c
  room : ∀ (n : U64) digits, IsNumeral base n.toNat digits → digits.length ≤ len
  sent : ∀ (n : U64) digits, IsNumeral base n.toNat digits → ∀ c vga,
    ∃ c', (write c n vga).result = .ok c' ∧ c'.uart = c.uart ++ digits

lemma printsNumbers {base len : ℕ} {write : BufferedConsole → U64 → ConsoleProgram BufferedConsole}
    (hbase : 1 < base) (hten : base ≤ 10) (hlen : 0 < len) (hroom : 2 ^ 64 ≤ base ^ len)
    (hwrite : ∀ c n, write c n = (numeral base n.toNat).foldlM BufferedConsole.writeByte c) :
    PrintsNumbers base len write := by
  refine ⟨fun n => ?_, fun n digits h c => ?_, fun n digits h => ?_, fun n digits h c vga => ?_⟩
  · exact ⟨numeral base n.toNat, isNumeral_numeral hbase hten _,
      fun digits h => h.eq_numeral hbase hten⟩
  · rw [h.eq_numeral hbase hten, hwrite]
  · rw [h.eq_numeral hbase hten]
    exact length_numeral_le hbase hlen (n.isLt.trans_le hroom)
  · rw [h.eq_numeral hbase hten, hwrite]
    obtain ⟨c', hresult, hlooks⟩ := (writeBytes_anywhere c vga (numeral base n.toNat)).result
    have huart := congrArg VgaConsole.uart hlooks
    rw [writeBytes_uart] at huart
    exact ⟨c', hresult, huart⟩

/-- **Numbers are printed correctly**, and their digits fit into the local arrays. -/
theorem numbers_printed :
    PrintsNumbers 10 20 BufferedConsole.writeDec ∧
      PrintsNumbers 8 22 BufferedConsole.writeOctal ∧
      PrintsNumbers 2 64 BufferedConsole.writeBinary := by
  refine ⟨?_, ?_, ?_⟩
  · exact printsNumbers (by decide) (by decide) (by decide) (by decide) writeDec_eq
  · exact printsNumbers (by decide) (by decide) (by decide) (by decide) writeOctal_eq
  · exact printsNumbers (by decide) (by decide) (by decide) (by decide) writeBinary_eq

end Masika
