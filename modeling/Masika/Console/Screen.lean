import Mathlib.Data.Nat.Digits.Defs
import Masika.Console
import Masika.Core.Accesses
import Masika.Core.BitPacked

/-!
# The accesses of the console to the screen

The text buffer of the VGA adapter is memory at a fixed address, which `console.rs` accesses through
raw pointers.  Here every operation of `Console` is a program whose accesses are recorded.  An index
into an array of Rust is checked, and the program leaves when the check fails.

* `BufferedConsole` is the console with the array that `buffer_write` fills.  Waiting for the serial
  line is left out; what is sent to it is not.
* `Shows` relates it to the console without pointers, `VgaConsole`, as long as the cursor is on the
  screen.  Each program has one lemma: it ends, it only accesses the screen, and it does what the
  operation on `VgaConsole` does.
* `storeDigits` is the loop that `write_dec`, `write_octal` and `write_binary` have in common, with
  `storeDigits_eq` for what it stores.

`console_stays_on_screen` is the result over every sequence of calls.
-/

namespace Masika

/-! ## The programs -/

/-- `index out of bounds: the len is .. but the index is ..` -/
structure IndexOutOfBounds where
  len : ℕ
  index : ℕ
deriving DecidableEq, Repr

/-- `[u8; n]` -/
abbrev ByteBuffer (n : ℕ) := Vector U8 n

/-- The addresses are offsets into the text buffer. -/
abbrev ConsoleProgram (α : Type) := Accessing Unit ℕ U8 IndexOutOfBounds α

/-- The console of the kernel, with its buffer. -/
structure BufferedConsole where
  cursorX : ℕ
  cursorY : ℕ
  color : U8
  buffer : ByteBuffer 4096
  bufPos : ℕ
  /-- what has been sent to the serial line -/
  uart : List U8

/-- `buf[i]` -/
def index {n : ℕ} (buf : ByteBuffer n) (i : ℕ) : ConsoleProgram U8 :=
  if h : i < n then pure buf[i] else Accessing.exit ⟨n, i⟩

/-- `buf[i] = c` -/
def setIndex {n : ℕ} (buf : ByteBuffer n) (i : ℕ) (c : U8) : ConsoleProgram (ByteBuffer n) :=
  if h : i < n then pure (buf.set i c h) else Accessing.exit ⟨n, i⟩

/-- The two writes that fill a cell. -/
def fillCell (index : ℕ) (c attr : U8) : ConsoleProgram Unit := do
  Accessing.store () index c
  Accessing.store () (index + 1) attr

/-- The loop `while num != 0`, which stores a digit of `num` in each round. -/
def storeDigits {n : ℕ} (digit : U64 → U8) (rest : U64 → U64) (i : ℕ) (num : U64)
    (buf : ByteBuffer n) : ConsoleProgram (ℕ × ByteBuffer n) :=
  if num = 0#64 then pure (i, buf)
  else if h : i < n then storeDigits digit rest (i + 1) (rest num) (buf.set i (digit num) h)
  else Accessing.exit ⟨n, i⟩
termination_by n - i

namespace BufferedConsole

/-- The console at boot. -/
def new : BufferedConsole where
  cursorX := 0
  cursorY := 0
  color := 0x07#8
  buffer := Vector.replicate 4096 0#8
  bufPos := 0
  uart := []

/-- A byte to the serial port. -/
def uartPutc (c : BufferedConsole) (byte : U8) : BufferedConsole :=
  { c with uart := c.uart ++ [byte] }

/-- The first loop goes over the rows from the second on; here `y + 1` is the row that is copied. -/
def scroll (c : BufferedConsole) : ConsoleProgram BufferedConsole := do
  (List.range (VGA_HEIGHT - 1)).forM fun y => (List.range VGA_WIDTH).forM fun x => do
    let src := cellIndex x (y + 1)
    let char ← Accessing.load () src
    let attr ← Accessing.load () (src + 1)
    fillCell (cellIndex x y) char attr
  let lastRow := (VGA_HEIGHT - 1) * VGA_WIDTH * 2
  (List.range (VGA_WIDTH * 2)).forM fun i => Accessing.store () (lastRow + i) 0#8
  pure { c with cursorY := VGA_HEIGHT - 1 }

/-- To the next row, or scroll. -/
def newline (c : BufferedConsole) : ConsoleProgram BufferedConsole :=
  let c := { c with cursorX := 0, cursorY := c.cursorY + 1 }
  if c.cursorY ≥ VGA_HEIGHT then c.scroll else pure c

/-- A character in another color. -/
def writeCharWithAttr (c : BufferedConsole) (char attr : U8) :
    ConsoleProgram BufferedConsole := do
  fillCell (cellIndex c.cursorX c.cursorY) char attr
  let c := { c with cursorX := c.cursorX + 1 }
  if c.cursorX ≥ VGA_WIDTH then c.newline else pure c

/-- The same with the colour in force. -/
def putChar (c : BufferedConsole) (char : U8) : ConsoleProgram BufferedConsole :=
  c.writeCharWithAttr char c.color

/-- A byte to both. -/
def writeByte (c : BufferedConsole) (byte : U8) : ConsoleProgram BufferedConsole :=
  let c := c.uartPutc byte
  if byte = 0x0A#8 then c.newline else c.putChar byte

/-- Blanks, and the cursor back. -/
def clearScreen (c : BufferedConsole) : ConsoleProgram BufferedConsole := do
  (List.range VGA_HEIGHT).forM fun y => (List.range VGA_WIDTH).forM fun x =>
    fillCell (cellIndex x y) 0x20#8 c.color
  pure { c with cursorX := 0, cursorY := 0 }

/-- Only to places that exist. -/
def setCursor (c : BufferedConsole) (x y : ℕ) : BufferedConsole :=
  if x < VGA_WIDTH ∧ y < VGA_HEIGHT then { c with cursorX := x, cursorY := y } else c

/-- Set the attribute. -/
def setColor (c : BufferedConsole) (fg bg : U8) : BufferedConsole :=
  { c with color := (bg <<< 4) ||| (fg &&& 0x0F#8) }

/-- Back by one, and erase. -/
def backspace (c : BufferedConsole) : ConsoleProgram BufferedConsole :=
  let erase := fun c : BufferedConsole => do
    fillCell (cellIndex c.cursorX c.cursorY) 0x20#8 c.color
    pure c
  if c.cursorX > 0 then erase { c with cursorX := c.cursorX - 1 }
  else if c.cursorY > 0 then erase { c with cursorY := c.cursorY - 1, cursorX := VGA_WIDTH - 1 }
  else pure c

/-- Byte by byte. -/
def writeStr (c : BufferedConsole) (s : List U8) : ConsoleProgram BufferedConsole :=
  s.foldlM (fun c byte =>
    if byte = 0x08#8 ∨ byte = 0x7F#8 then c.backspace else c.writeByte byte) c

/-- `write_dec`, `write_octal` and `write_binary`, with the length of their local buffer. -/
def writeNumber (len : ℕ) (digit : U64 → U8) (rest : U64 → U64) (c : BufferedConsole)
    (n : U64) : ConsoleProgram BufferedConsole :=
  if n = 0#64 then c.writeByte 0x30#8
  else do
    let (i, buf) ← storeDigits digit rest 0 n (Vector.replicate len 0#8)
    (List.range i).reverse.foldlM (fun c j => do c.writeByte (← index buf j)) c

/-- Decimal digits. -/
def writeDec : BufferedConsole → U64 → ConsoleProgram BufferedConsole :=
  writeNumber 20 (fun num => (num % 10#64).setWidth 8 + 0x30#8) (fun num => num / 10#64)

/-- Octal digits. -/
def writeOctal : BufferedConsole → U64 → ConsoleProgram BufferedConsole :=
  writeNumber 22 (fun num => (num &&& 7#64).setWidth 8 + 0x30#8) (fun num => num >>> 3)

/-- Binary digits. -/
def writeBinary : BufferedConsole → U64 → ConsoleProgram BufferedConsole :=
  writeNumber 64 (fun num => (num &&& 1#64).setWidth 8 + 0x30#8) (fun num => num >>> 1)

/-- Write what is buffered. -/
def flushBuffer (c : BufferedConsole) : ConsoleProgram BufferedConsole := do
  let c ← (List.range c.bufPos).foldlM (fun c i => do c.writeByte (← index c.buffer i)) c
  pure { c with bufPos := 0 }

/-- Buffer a byte; flush when the buffer is full. -/
def bufferWrite (c : BufferedConsole) (char : U8) : ConsoleProgram BufferedConsole := do
  if c.bufPos < 4096 then
    let buffer ← setIndex c.buffer c.bufPos char
    pure { c with buffer := buffer, bufPos := c.bufPos + 1 }
  else
    let c ← c.flushBuffer
    let buffer ← setIndex c.buffer 0 char
    pure { c with buffer := buffer, bufPos := 1 }

end BufferedConsole

/-! ## The console without pointers -/

namespace VgaConsole

/-- `write_char_with_attr` -/
def writeCharWithAttr (c : VgaConsole) (char attr : U8) : VgaConsole :=
  let c := { c with
    vga := writeCell c.vga (cellIndex c.cursorX c.cursorY) char attr
    cursorX := c.cursorX + 1 }
  if c.cursorX ≥ VGA_WIDTH then c.newline else c

/-- Only to places that exist. -/
def setCursor (c : VgaConsole) (x y : ℕ) : VgaConsole :=
  if x < VGA_WIDTH ∧ y < VGA_HEIGHT then { c with cursorX := x, cursorY := y } else c

/-- Bytes without backspaces. -/
def writeBytes (c : VgaConsole) (bytes : List U8) : VgaConsole := bytes.foldl writeByte c

/-- The cursor is on the screen. -/
structure CursorOn (c : VgaConsole) : Prop where
  x : c.cursorX < VGA_WIDTH
  y : c.cursorY < VGA_HEIGHT

end VgaConsole

/-- Without the buffer. -/
def BufferedConsole.view (c : BufferedConsole) (vga : Vga) : VgaConsole :=
  ⟨c.cursorX, c.cursorY, c.color, vga, c.uart⟩

/-- With the text buffer `vga`, the console `c` is the console `v`, whose cursor is on the screen;
its own buffer is `buffer`, filled up to `bufPos`. -/
structure Shows (buffer : ByteBuffer 4096) (bufPos : ℕ) (v : VgaConsole)
    (c : BufferedConsole) (vga : Vga) : Prop where
  view : c.view vga = v
  cursorOn : v.CursorOn
  buffer : c.buffer = buffer
  bufPos : c.bufPos = bufPos

/-- The offsets of the text buffer. -/
def OnScreen (_ : Unit) (offset : ℕ) : Prop := offset < VGA_WIDTH * VGA_HEIGHT * 2

/-! ## What the programs do -/

section Programs

variable {buffer : ByteBuffer 4096} {bufPos : ℕ} {v : VgaConsole} {c : BufferedConsole} {vga : Vga}

lemma first_column_lt : 0 < VGA_WIDTH := by decide

lemma last_column_lt : VGA_WIDTH - 1 < VGA_WIDTH := by decide

lemma first_row_lt : 0 < VGA_HEIGHT := by decide

lemma last_row_lt : VGA_HEIGHT - 1 < VGA_HEIGHT := by decide

/-- `cellIndex` of a cell on the screen. -/
lemma onScreen_cellIndex {x y : ℕ} (hx : x < VGA_WIDTH) (hy : y < VGA_HEIGHT) :
    OnScreen () (cellIndex x y) ∧ OnScreen () (cellIndex x y + 1) := by
  simp only [OnScreen, cellIndex, VGA_WIDTH, VGA_HEIGHT] at hx hy ⊢
  omega

lemma fillCell_ends {x y : ℕ} (hx : x < VGA_WIDTH) (hy : y < VGA_HEIGHT) (char attr : U8)
    (vga : Vga) :
    (fillCell (cellIndex x y) char attr).Ends OnScreen vga fun _ vga' =>
      vga' = writeCell vga (cellIndex x y) char attr := by
  obtain ⟨hchar, hattr⟩ := onScreen_cellIndex hx hy
  exact .bind (.store hchar (.store hattr rfl))

lemma index_ends {n : ℕ} (buf : ByteBuffer n) {i : ℕ} (hi : i < n) (vga : Vga) :
    (index buf i).Ends OnScreen vga fun c vga' => c = buf[i] ∧ vga' = vga := by
  rw [index, dif_pos hi]
  exact .pure ⟨rfl, rfl⟩

lemma setIndex_ends {n : ℕ} (buf : ByteBuffer n) {i : ℕ} (hi : i < n) (char : U8) (vga : Vga) :
    (setIndex buf i char).Ends OnScreen vga fun buf' vga' =>
      buf' = buf.set i char hi ∧ vga' = vga := by
  rw [setIndex, dif_pos hi]
  exact .pure ⟨rfl, rfl⟩

/-- The loops of `scroll` that copy. -/
lemma copyRows_ends (vga : Vga) :
    ((List.range (VGA_HEIGHT - 1)).forM fun y => (List.range VGA_WIDTH).forM fun x => do
      let char ← Accessing.load () (cellIndex x (y + 1))
      let attr ← Accessing.load () (cellIndex x (y + 1) + 1)
      fillCell (cellIndex x y) char attr : ConsoleProgram Unit).Ends OnScreen vga
        fun _ vga' => vga' = VgaConsole.copyRows vga := by
  refine .forM _ (fun y hy vga => .forM _ (fun x hx vga => ?_) vga) vga
  rw [List.mem_range] at hx hy
  have hy' : y + 1 < VGA_HEIGHT := Nat.add_lt_of_lt_sub hy
  obtain ⟨hchar, hattr⟩ := onScreen_cellIndex hx hy'
  exact .bind (.load hchar (.bind (.load hattr (fillCell_ends hx (Nat.lt_of_succ_lt hy') _ _ _))))

/-- The last loop of `scroll`. -/
lemma clearLastRow_ends (vga : Vga) :
    ((List.range (VGA_WIDTH * 2)).forM fun i =>
      Accessing.store () ((VGA_HEIGHT - 1) * VGA_WIDTH * 2 + i) 0#8 : ConsoleProgram Unit).Ends
        OnScreen vga fun _ vga' => vga' = VgaConsole.clearLastRow vga := by
  refine .forM _ (fun i hi vga => .store ?_ rfl) vga
  simp only [List.mem_range, OnScreen, VGA_WIDTH, VGA_HEIGHT] at hi ⊢
  omega

lemma scroll_ends (c : BufferedConsole) (vga : Vga) :
    c.scroll.Ends OnScreen vga fun c' vga' =>
      c' = { c with cursorY := VGA_HEIGHT - 1 } ∧
        vga' = VgaConsole.clearLastRow (VgaConsole.copyRows vga) := by
  rw [BufferedConsole.scroll]
  refine .bind ((copyRows_ends vga).mono fun _ vga' hcopied => ?_)
  refine .bind ((clearLastRow_ends vga').mono fun _ vga'' hcleared => .pure ⟨rfl, ?_⟩)
  rw [hcleared, hcopied]

/-- `newline`, wherever the cursor is. -/
lemma newline_ends (c : BufferedConsole) (vga : Vga) :
    c.newline.Ends OnScreen vga (Shows c.buffer c.bufPos (c.view vga).newline) := by
  refine .ite (fun _ => ?_) fun hroom => ?_
  · refine (scroll_ends _ vga).mono ?_
    rintro c' vga' ⟨rfl, rfl⟩
    exact ⟨rfl, ⟨first_column_lt, last_row_lt⟩, rfl, rfl⟩
  · exact .pure ⟨rfl, ⟨first_column_lt, Nat.lt_of_not_ge hroom⟩, rfl, rfl⟩

lemma Shows.newline (h : Shows buffer bufPos v c vga) :
    c.newline.Ends OnScreen vga (Shows buffer bufPos v.newline) := by
  obtain ⟨rfl, hon, rfl, rfl⟩ := h
  exact newline_ends c vga

lemma Shows.writeCharWithAttr (h : Shows buffer bufPos v c vga) (char attr : U8) :
    (c.writeCharWithAttr char attr).Ends OnScreen vga
      (Shows buffer bufPos (v.writeCharWithAttr char attr)) := by
  obtain ⟨rfl, hon, rfl, rfl⟩ := h
  refine .bind ((fillCell_ends hon.x hon.y char attr vga).mono fun _ vga' hvga => ?_)
  subst hvga
  refine .ite (fun _ => ?_) fun hroom => ?_
  · exact newline_ends _ _
  · exact .pure ⟨rfl, ⟨Nat.lt_of_not_ge hroom, hon.y⟩, rfl, rfl⟩

lemma Shows.putChar (h : Shows buffer bufPos v c vga) (char : U8) :
    (c.putChar char).Ends OnScreen vga (Shows buffer bufPos (v.putChar char)) := by
  have hcolor : c.color = v.color := congrArg VgaConsole.color h.view
  rw [BufferedConsole.putChar, hcolor]
  exact h.writeCharWithAttr char v.color

lemma Shows.uartPutc (h : Shows buffer bufPos v c vga) (byte : U8) :
    Shows buffer bufPos (v.uartPutc byte) (c.uartPutc byte) vga := by
  obtain ⟨rfl, hon, rfl, rfl⟩ := h
  exact ⟨rfl, ⟨hon.x, hon.y⟩, rfl, rfl⟩

lemma Shows.writeByte (h : Shows buffer bufPos v c vga) (byte : U8) :
    (c.writeByte byte).Ends OnScreen vga (Shows buffer bufPos (v.writeByte byte)) := by
  refine .ite (fun _ => ?_) fun _ => ?_
  · exact (h.uartPutc byte).newline
  · exact (h.uartPutc byte).putChar byte

/-- The loops of `clear_screen`. -/
lemma clearCells_ends (color : U8) (vga : Vga) :
    ((List.range VGA_HEIGHT).forM fun y => (List.range VGA_WIDTH).forM fun x =>
      fillCell (cellIndex x y) 0x20#8 color).Ends OnScreen vga fun _ vga' =>
        vga' = (List.range VGA_HEIGHT).foldl (fun vga y =>
          (List.range VGA_WIDTH).foldl (fun vga x =>
            writeCell vga (cellIndex x y) 0x20#8 color) vga) vga :=
  .forM _ (fun _ hy vga => .forM _ (fun _ hx vga =>
    fillCell_ends (List.mem_range.mp hx) (List.mem_range.mp hy) _ _ vga) vga) vga

lemma Shows.clearScreen (h : Shows buffer bufPos v c vga) :
    c.clearScreen.Ends OnScreen vga (Shows buffer bufPos v.clearScreen) := by
  obtain ⟨rfl, hon, rfl, rfl⟩ := h
  refine .bind ((clearCells_ends c.color vga).mono fun _ vga' hcleared => ?_)
  subst hcleared
  exact .pure ⟨rfl, ⟨first_column_lt, first_row_lt⟩, rfl, rfl⟩

lemma Shows.setCursor (h : Shows buffer bufPos v c vga) (x y : ℕ) :
    Shows buffer bufPos (v.setCursor x y) (c.setCursor x y) vga := by
  obtain ⟨rfl, hon, rfl, rfl⟩ := h
  rw [VgaConsole.setCursor, BufferedConsole.setCursor]
  split_ifs with hin
  · exact ⟨rfl, ⟨hin.1, hin.2⟩, rfl, rfl⟩
  · exact ⟨rfl, hon, rfl, rfl⟩

lemma Shows.setColor (h : Shows buffer bufPos v c vga) (fg bg : U8) :
    Shows buffer bufPos (v.setColor fg bg) (c.setColor fg bg) vga := by
  obtain ⟨rfl, hon, rfl, rfl⟩ := h
  exact ⟨rfl, ⟨hon.x, hon.y⟩, rfl, rfl⟩

lemma Shows.backspace (h : Shows buffer bufPos v c vga) :
    c.backspace.Ends OnScreen vga (Shows buffer bufPos v.backspace) := by
  obtain ⟨rfl, hon, rfl, rfl⟩ := h
  -- the cell under the new cursor is cleared
  have herase : ∀ {x y : ℕ}, x < VGA_WIDTH → y < VGA_HEIGHT →
      (do fillCell (cellIndex x y) 0x20#8 c.color
          pure { c with cursorX := x, cursorY := y } : ConsoleProgram BufferedConsole).Ends
        OnScreen vga (Shows c.buffer c.bufPos
          ⟨x, y, c.color, writeCell vga (cellIndex x y) 0x20#8 c.color, c.uart⟩) := by
    intro x y hx hy
    refine .bind ((fillCell_ends hx hy _ _ vga).mono fun _ vga' hvga => ?_)
    subst hvga
    exact .pure ⟨rfl, ⟨hx, hy⟩, rfl, rfl⟩
  refine .ite (fun _ => ?_) fun _ => .ite (fun _ => ?_) fun _ => ?_
  · exact herase (Nat.lt_of_le_of_lt (Nat.sub_le c.cursorX 1) hon.x) hon.y
  · exact herase last_column_lt (Nat.lt_of_le_of_lt (Nat.sub_le c.cursorY 1) hon.y)
  · exact .pure ⟨rfl, hon, rfl, rfl⟩

lemma Shows.writeStr (h : Shows buffer bufPos v c vga) (s : List U8) :
    (c.writeStr s).Ends OnScreen vga (Shows buffer bufPos (v.writeStr s)) := by
  refine .foldlM s (fun byte _ v c vga h => ?_) h
  refine .ite (fun _ => ?_) fun _ => ?_
  · exact h.backspace
  · exact h.writeByte byte

/-! ### Numbers -/

/-- The character of a digit. -/
def asciiDigit (d : ℕ) : U8 := BitVec.ofNat 8 (0x30 + d)

/-- Storing at the end of what has been stored. -/
lemma take_set_succ {n : ℕ} (buf : ByteBuffer n) {i : ℕ} (hi : i < n) (char : U8) :
    (buf.set i char hi).toList.take (i + 1) = buf.toList.take i ++ [char] := by
  have hlen : (buf.toList.take i).length = i := by simp [hi.le]
  rw [Vector.toList_set, List.set_eq_take_append_cons_drop, if_pos (by simpa using hi),
    List.take_append, hlen, Nat.add_sub_cancel_left, List.take_of_length_le (by omega)]
  rfl

/-- **The digits are stored**, the last one first, and there is room for all of them. -/
lemma storeDigits_eq {n base : ℕ} {digit : U64 → U8} {rest : U64 → U64} (hbase : 1 < base)
    (hdigit : ∀ num, digit num = asciiDigit (num.toNat % base))
    (hrest : ∀ num, (rest num).toNat = num.toNat / base) {i : ℕ} {num : U64} (buf : ByteBuffer n)
    (hi : i ≤ n) (hnum : num.toNat < base ^ (n - i)) :
    ∃ k buf', storeDigits digit rest i num buf = pure (k, buf') ∧ k ≤ n ∧
      buf'.toList.take k = buf.toList.take i ++ (Nat.digits base num.toNat).map asciiDigit := by
  fun_induction storeDigits digit rest i num buf with
  | case1 i buf => exact ⟨i, buf, rfl, hi, by simp⟩
  | case2 i num buf hne hlt ih =>
    have hpos : 0 < num.toNat := by
      rw [Nat.pos_iff_ne_zero]
      exact fun h => hne (BitVec.eq_of_toNat_eq h)
    have hsmall : (rest num).toNat < base ^ (n - (i + 1)) := by
      rw [hrest]
      refine Nat.div_lt_of_lt_mul (hnum.trans_eq ?_)
      rw [← Nat.pow_succ', show (n - (i + 1)).succ = n - i by omega]
    obtain ⟨k, buf', hstored, hle, htake⟩ := ih hlt hsmall
    refine ⟨k, buf', hstored, hle, ?_⟩
    rw [htake, take_set_succ, Nat.digits_def' hbase hpos, List.map_cons, hdigit, hrest,
      List.append_assoc]
    rfl
  | case3 i num buf hne hge =>
    rw [Nat.sub_eq_zero_of_le (Nat.le_of_not_lt hge), Nat.pow_zero, Nat.lt_one_iff] at hnum
    exact absurd (BitVec.eq_of_toNat_eq hnum) hne

lemma map_range_getD {n : ℕ} (buf : ByteBuffer n) {i : ℕ} (hi : i ≤ n) :
    (List.range i).map (fun j => buf.toList.getD j 0#8) = buf.toList.take i := by
  refine List.ext_getElem (by simp [hi]) fun j hj hj' => ?_
  have hlt : j < n := by
    rw [List.length_map, List.length_range] at hj
    omega
  simp [hlt]

/-- **A loop that writes out the bytes of a buffer**, in the order of `indices`. -/
lemma Shows.writeIndices (h : Shows buffer bufPos v c vga) {n : ℕ} {buf : ByteBuffer n}
    {read : BufferedConsole → ByteBuffer n}
    (hread : ∀ v c vga, Shows buffer bufPos v c vga → read c = buf) {indices : List ℕ}
    (hin : ∀ j ∈ indices, j < n) :
    (indices.foldlM (fun c j => do c.writeByte (← index (read c) j)) c :
      ConsoleProgram BufferedConsole).Ends OnScreen vga
        (Shows buffer bufPos (v.writeBytes (indices.map fun j => buf.toList.getD j 0#8))) := by
  rw [VgaConsole.writeBytes, List.foldl_map]
  refine .foldlM indices (fun j hj v c vga h => ?_) h
  refine .bind ((index_ends (read c) (hin j hj) vga).mono ?_)
  rintro byte vga' ⟨rfl, rfl⟩
  have hlt := hin j hj
  have hbyte : (read c)[j] = buf.toList.getD j 0#8 := by simp [hread v c vga' h, hlt]
  rw [hbyte]
  exact h.writeByte _

/-- The digits of a number, the first one first. -/
def numeral (base n : ℕ) : List U8 :=
  if n = 0 then [asciiDigit 0] else ((Nat.digits base n).map asciiDigit).reverse

/-- The bytes of a buffer that has been filled are written out in the order of `indices`. -/
lemma writeIndices_eq {n : ℕ} (buf : ByteBuffer n) {indices : List ℕ} (hin : ∀ j ∈ indices, j < n)
    (c : BufferedConsole) :
    (indices.foldlM (fun c j => do c.writeByte (← index buf j)) c :
      ConsoleProgram BufferedConsole) =
        (indices.map fun j => buf.toList.getD j 0#8).foldlM BufferedConsole.writeByte c := by
  induction indices generalizing c with
  | nil => rfl
  | cons j indices ih =>
    rw [List.forall_mem_cons] at hin
    have hbyte : index buf j = pure (buf.toList.getD j 0#8) := by simp [index, hin.1]
    rw [List.foldlM_cons, List.map_cons, List.foldlM_cons, hbyte]
    exact congrArg (c.writeByte (buf.toList.getD j 0#8) >>= ·) (funext fun c' => ih hin.2 c')

/-- **A number is written out** in its base. -/
lemma writeNumber_eq {len base : ℕ} {digit : U64 → U8} {rest : U64 → U64} (hbase : 1 < base)
    (hdigit : ∀ num, digit num = asciiDigit (num.toNat % base))
    (hrest : ∀ num, (rest num).toNat = num.toNat / base) (hlen : 2 ^ 64 ≤ base ^ len)
    (c : BufferedConsole) (n : U64) :
    c.writeNumber len digit rest n =
      (numeral base n.toNat).foldlM BufferedConsole.writeByte c := by
  rw [BufferedConsole.writeNumber, numeral]
  split_ifs with hzero hzero' hzero'
  · exact (Accessing.bind_pure_eq _).symm
  · exact absurd (congrArg BitVec.toNat hzero) hzero'
  · exact absurd (BitVec.eq_of_toNat_eq hzero') hzero
  · obtain ⟨i, buf, hstored, hi, htake⟩ := storeDigits_eq hbase hdigit hrest
      (Vector.replicate len 0#8) (Nat.zero_le len) (n.isLt.trans_le hlen)
    rw [List.take_zero, List.nil_append] at htake
    rw [hstored, ← htake, ← map_range_getD buf hi, ← List.map_reverse]
    refine writeIndices_eq buf (fun j hj => ?_) c
    rw [List.mem_reverse, List.mem_range] at hj
    exact hj.trans_le hi

lemma setWidth_add_eq_asciiDigit {x : U64} {d : ℕ} (h : x.toNat = d) :
    x.setWidth 8 + 0x30#8 = asciiDigit d := by
  refine BitVec.eq_of_toNat_eq ?_
  rw [BitVec.toNat_add, BitVec.toNat_setWidth, h, asciiDigit, BitVec.toNat_ofNat,
    BitVec.toNat_ofNat]
  omega

lemma toNat_shiftRight (num : U64) (k : ℕ) : (num >>> k).toNat = num.toNat / 2 ^ k := by
  rw [BitVec.toNat_ushiftRight, Nat.shiftRight_eq_div_pow]

lemma writeDec_eq (c : BufferedConsole) (n : U64) :
    c.writeDec n = (numeral 10 n.toNat).foldlM BufferedConsole.writeByte c := by
  refine writeNumber_eq (by decide) (fun num => ?_) (fun num => ?_) (by decide) c n
  · exact setWidth_add_eq_asciiDigit (BitVec.toNat_umod ..)
  · exact BitVec.toNat_udiv ..

lemma writeOctal_eq (c : BufferedConsole) (n : U64) :
    c.writeOctal n = (numeral 8 n.toNat).foldlM BufferedConsole.writeByte c := by
  refine writeNumber_eq (by decide) (fun num => ?_) (fun num => ?_) (by decide) c n
  · exact setWidth_add_eq_asciiDigit (toNat_and_mask num (show 3 ≤ 64 by decide))
  · exact toNat_shiftRight num 3

lemma writeBinary_eq (c : BufferedConsole) (n : U64) :
    c.writeBinary n = (numeral 2 n.toNat).foldlM BufferedConsole.writeByte c := by
  refine writeNumber_eq (by decide) (fun num => ?_) (fun num => ?_) (by decide) c n
  · exact setWidth_add_eq_asciiDigit (toNat_and_mask num (show 1 ≤ 64 by decide))
  · exact toNat_shiftRight num 1

lemma Shows.writeBytes (h : Shows buffer bufPos v c vga) (bytes : List U8) :
    (bytes.foldlM BufferedConsole.writeByte c : ConsoleProgram BufferedConsole).Ends OnScreen vga
      (Shows buffer bufPos (v.writeBytes bytes)) :=
  .foldlM bytes (fun byte _ _ _ _ h => h.writeByte byte) h

/-! ### The buffer -/

lemma Shows.flushBuffer (h : Shows buffer bufPos v c vga) (hpos : bufPos ≤ 4096) :
    c.flushBuffer.Ends OnScreen vga
      (Shows buffer 0 (v.writeBytes (buffer.toList.take bufPos))) := by
  rw [← map_range_getD buffer hpos, BufferedConsole.flushBuffer, h.bufPos]
  refine .bind ((h.writeIndices (fun _ _ _ h => h.buffer) fun i hi => ?_).mono ?_)
  · exact (List.mem_range.mp hi).trans_le hpos
  · intro c' vga' h'
    exact .pure ⟨h'.view, h'.cursorOn, h'.buffer, rfl⟩

/-- There is room for another byte. -/
lemma Shows.bufferWrite_of_lt (h : Shows buffer bufPos v c vga) (hpos : bufPos < 4096) (char : U8) :
    (c.bufferWrite char).Ends OnScreen vga
      (Shows (buffer.set bufPos char hpos) (bufPos + 1) v) := by
  obtain ⟨rfl, hon, rfl, rfl⟩ := h
  rw [BufferedConsole.bufferWrite, if_pos hpos]
  refine .bind ((setIndex_ends c.buffer hpos char vga).mono ?_)
  rintro buffer vga' ⟨rfl, rfl⟩
  exact .pure ⟨rfl, hon, rfl, rfl⟩

/-- The buffer is full, and is written out first. -/
lemma Shows.bufferWrite_of_full (h : Shows buffer 4096 v c vga) (char : U8) :
    (c.bufferWrite char).Ends OnScreen vga
      (Shows (buffer.set 0 char) 1 (v.writeBytes buffer.toList)) := by
  rw [BufferedConsole.bufferWrite, if_neg (by rw [h.bufPos]; decide)]
  refine .bind ((h.flushBuffer (Nat.le_refl _)).mono fun c' vga' h' => ?_)
  rw [List.take_of_length_le (by simp)] at h'
  obtain ⟨hview, hon, rfl, hpos⟩ := h'
  refine .bind ((setIndex_ends c'.buffer (Nat.zero_lt_succ 4095) char vga').mono ?_)
  rintro buffer vga'' ⟨rfl, rfl⟩
  exact .pure ⟨hview, hon, rfl, rfl⟩

end Programs

/-! ## Sequences of calls -/

/-- The calls that use the buffer. -/
inductive BufferCall where
  | bufferWrite (char : U8)
  | flushBuffer

/-- All calls. -/
inductive ConsoleCall where
  | writeByte (byte : U8)
  | putChar (char : U8)
  | newline
  | backspace
  | writeStr (s : List U8)
  | setCursor (x y : ℕ)
  | setColor (fg bg : U8)
  | clearScreen
  | writeCharWithAttr (char attr : U8)
  | writeDec (n : U64)
  | writeOctal (n : U64)
  | writeBinary (n : U64)
  | buffered (call : BufferCall)

namespace BufferedConsole

/-- One call. -/
def bufferCall (c : BufferedConsole) : BufferCall → ConsoleProgram BufferedConsole
  | .bufferWrite char => c.bufferWrite char
  | .flushBuffer => c.flushBuffer

/-- One call. -/
def call (c : BufferedConsole) : ConsoleCall → ConsoleProgram BufferedConsole
  | .writeByte byte => c.writeByte byte
  | .putChar char => c.putChar char
  | .newline => c.newline
  | .backspace => c.backspace
  | .writeStr s => c.writeStr s
  | .setCursor x y => pure (c.setCursor x y)
  | .setColor fg bg => pure (c.setColor fg bg)
  | .clearScreen => c.clearScreen
  | .writeCharWithAttr char attr => c.writeCharWithAttr char attr
  | .writeDec n => c.writeDec n
  | .writeOctal n => c.writeOctal n
  | .writeBinary n => c.writeBinary n
  | .buffered b => c.bufferCall b

/-- The calls are made one after the other on a new console. -/
def afterCalls (calls : List ConsoleCall) : ConsoleProgram BufferedConsole := calls.foldlM call new

/-- The cursor and the end of the buffer are where they may be. -/
def InPlace (c : BufferedConsole) (vga : Vga) : Prop :=
  ∃ buffer bufPos v, bufPos ≤ 4096 ∧ Shows buffer bufPos v c vga

end BufferedConsole

section Calls

variable {c : BufferedConsole} {vga : Vga}

lemma bufferCall_inPlace (h : c.InPlace vga) (b : BufferCall) :
    (c.bufferCall b).Ends OnScreen vga BufferedConsole.InPlace := by
  obtain ⟨buffer, bufPos, v, hpos, h⟩ := h
  cases b with
  | bufferWrite char =>
    rcases Nat.lt_or_eq_of_le hpos with hlt | rfl
    · exact (h.bufferWrite_of_lt hlt char).mono fun c' vga' h' => ⟨_, _, _, hlt, h'⟩
    · exact (h.bufferWrite_of_full char).mono fun c' vga' h' => ⟨_, _, _, by decide, h'⟩
  | flushBuffer => exact (h.flushBuffer hpos).mono fun c' vga' h' => ⟨_, _, _, Nat.zero_le _, h'⟩

/-- **One call.** -/
lemma call_inPlace (h : c.InPlace vga) (call : ConsoleCall) :
    (c.call call).Ends OnScreen vga BufferedConsole.InPlace := by
  obtain ⟨buffer, bufPos, v, hpos, hshows⟩ := h
  -- all calls but those of the buffer leave it as it is
  have hkeep : ∀ {v'} {m : ConsoleProgram BufferedConsole},
      m.Ends OnScreen vga (Shows buffer bufPos v') →
        m.Ends OnScreen vga BufferedConsole.InPlace := fun hm =>
    hm.mono fun c' vga' h' => ⟨buffer, bufPos, _, hpos, h'⟩
  cases call with
  | writeByte byte => exact hkeep (hshows.writeByte byte)
  | putChar char => exact hkeep (hshows.putChar char)
  | newline => exact hkeep hshows.newline
  | backspace => exact hkeep hshows.backspace
  | writeStr s => exact hkeep (hshows.writeStr s)
  | setCursor x y => exact hkeep (.pure (hshows.setCursor x y))
  | setColor fg bg => exact hkeep (.pure (hshows.setColor fg bg))
  | clearScreen => exact hkeep hshows.clearScreen
  | writeCharWithAttr char attr => exact hkeep (hshows.writeCharWithAttr char attr)
  | writeDec n =>
    rw [BufferedConsole.call, writeDec_eq]
    exact hkeep (hshows.writeBytes _)
  | writeOctal n =>
    rw [BufferedConsole.call, writeOctal_eq]
    exact hkeep (hshows.writeBytes _)
  | writeBinary n =>
    rw [BufferedConsole.call, writeBinary_eq]
    exact hkeep (hshows.writeBytes _)
  | buffered b => exact bufferCall_inPlace ⟨buffer, bufPos, v, hpos, hshows⟩ b

end Calls

lemma shows_new (vga : Vga) :
    Shows BufferedConsole.new.buffer 0 (BufferedConsole.new.view vga) BufferedConsole.new vga :=
  ⟨rfl, ⟨first_column_lt, first_row_lt⟩, rfl, rfl⟩

/-- **The console never leaves the screen.**  Whatever is on the screen, and after any sequence of
calls on a new console: no call has left early, the cursor is in one of the 80 columns and 25 rows,
and every offset that was read or written is one of the text buffer.  The sequence may end after any
of the calls, so this holds after each of them. -/
theorem console_stays_on_screen (calls : List ConsoleCall) (vga : Vga) :
    ∃ c, (BufferedConsole.afterCalls calls vga).result = .ok c ∧
      c.cursorX < 80 ∧ c.cursorY < 25 ∧
      ∀ a ∈ (BufferedConsole.afterCalls calls vga).trace, a.addr < 80 * 25 * 2 := by
  have hnew : BufferedConsole.new.InPlace vga := ⟨_, 0, _, Nat.zero_le _, shows_new vga⟩
  have hrun : (BufferedConsole.afterCalls calls).Ends OnScreen vga BufferedConsole.InPlace :=
    Accessing.Ends.foldlM (S := fun _ : Unit => BufferedConsole.InPlace) (g := fun _ _ => ()) calls
      (fun call _ _ c vga h => call_inPlace h call) (a := ()) hnew
  obtain ⟨hpermitted, c, hc, buffer, bufPos, v, -, hshows⟩ := hrun
  obtain ⟨rfl, hon, -, -⟩ := hshows
  exact ⟨c, hc, hon.x, hon.y, hpermitted⟩

end Masika
