import Masika.Core.Loops
import Masika.Core.Usize

/-!
# The VGA console

`Console` of `console.rs` writes characters into an 80 by 25 text buffer, two bytes to a cell, and
scrolls by copying the buffer onto itself.  This file relates it to an unbounded *document*, the
list of rows of everything that was written.

* `VgaConsole` is the console, with its loops over the buffer as loops.  Waiting for the serial line
  is left out; what is sent to it is not.
* `Document` is the text as rows.  A row ends at a newline or as soon as it has 80 characters, so
  every row has at most 80 and the last one fewer; the structure says so.
* `Painted` relates the buffer to rows: cell by cell, the screen shows the last 25 of them.

Each operation on rows has one lemma about the buffer: `Painted.put` for a character,
`Painted.newRow` and `Painted.scrolled` for a row that begins.  `console_shows_tail` puts them
together over every sequence of writes and changes of colour.
-/

namespace Masika

/-- The columns of the screen. -/
def VGA_WIDTH : ℕ := 80

/-- The rows of the screen. -/
def VGA_HEIGHT : ℕ := 25

/-! ## The console -/

/-- The bytes of the text buffer. -/
abbrev Vga := ℕ → U8

/-- The console, with the screen and what the port has sent. -/
structure VgaConsole where
  cursorX : ℕ
  cursorY : ℕ
  color : U8
  vga : Vga
  /-- what has been sent to the serial line -/
  uart : List U8

/-- Where the cell in column `x` of row `y` begins. -/
def cellIndex (x y : ℕ) : ℕ := (y * VGA_WIDTH + x) * 2

/-- The two writes that fill a cell. -/
def writeCell (vga : Vga) (index : ℕ) (c attr : U8) : Vga :=
  Function.update (Function.update vga index c) (index + 1) attr

namespace VgaConsole

/-- The loops of `scroll`: every row but the first is copied to the row above it, here row `y + 1`
to row `y`. -/
def copyRows (vga : Vga) : Vga :=
  (List.range (VGA_HEIGHT - 1)).foldl (fun vga y =>
    (List.range VGA_WIDTH).foldl (fun vga x =>
      let src := cellIndex x (y + 1)
      writeCell vga (cellIndex x y) (vga src) (vga (src + 1))) vga) vga

/-- The last loop of `scroll`. -/
def clearLastRow (vga : Vga) : Vga :=
  let lastRow := (VGA_HEIGHT - 1) * VGA_WIDTH * 2
  (List.range (VGA_WIDTH * 2)).foldl (fun vga i => Function.update vga (lastRow + i) 0#8) vga

/-- All rows go up by one. -/
def scroll (c : VgaConsole) : VgaConsole :=
  { c with vga := clearLastRow (copyRows c.vga), cursorY := VGA_HEIGHT - 1 }

/-- To the next row, or scroll. -/
def newline (c : VgaConsole) : VgaConsole :=
  let c := { c with cursorX := 0, cursorY := c.cursorY + 1 }
  if c.cursorY ≥ VGA_HEIGHT then c.scroll else c

/-- A character at the cursor. -/
def putChar (c : VgaConsole) (char : U8) : VgaConsole :=
  let c := { c with
    vga := writeCell c.vga (cellIndex c.cursorX c.cursorY) char c.color
    cursorX := c.cursorX + 1 }
  if c.cursorX ≥ VGA_WIDTH then c.newline else c

/-- A byte to the serial port. -/
def uartPutc (c : VgaConsole) (byte : U8) : VgaConsole := { c with uart := c.uart ++ [byte] }

/-- A byte to both. -/
def writeByte (c : VgaConsole) (byte : U8) : VgaConsole :=
  let c := c.uartPutc byte
  if byte = 0x0A#8 then c.newline else c.putChar byte

/-- The cell before the cursor is cleared, if there is one. -/
def backspace (c : VgaConsole) : VgaConsole :=
  let erase := fun c : VgaConsole =>
    { c with vga := writeCell c.vga (cellIndex c.cursorX c.cursorY) 0x20#8 c.color }
  if c.cursorX > 0 then erase { c with cursorX := c.cursorX - 1 }
  else if c.cursorY > 0 then erase { c with cursorY := c.cursorY - 1, cursorX := VGA_WIDTH - 1 }
  else c

/-- Byte by byte; two of the codes are backspaces. -/
def writeStr (c : VgaConsole) (s : List U8) : VgaConsole :=
  s.foldl (fun c byte => if byte = 0x08#8 ∨ byte = 0x7F#8 then c.backspace else c.writeByte byte) c

/-- Blanks, and the cursor back. -/
def clearScreen (c : VgaConsole) : VgaConsole :=
  { c with
    vga := (List.range VGA_HEIGHT).foldl (fun vga y =>
      (List.range VGA_WIDTH).foldl (fun vga x =>
        writeCell vga (cellIndex x y) 0x20#8 c.color) vga) c.vga
    cursorX := 0
    cursorY := 0 }

/-- Set the attribute. -/
def setColor (c : VgaConsole) (fg bg : U8) : VgaConsole :=
  { c with color := (bg <<< 4) ||| (fg &&& 0x0F#8) }

end VgaConsole

/-! ## The document -/

/-- A character and the colour that was in force when it was written. -/
structure Cell where
  char : U8
  color : U8

/-- The rows of a text: those that have ended, and the last one. -/
structure Document where
  closed : List (List Cell)
  last : List Cell
  closed_le : ∀ row ∈ closed, row.length ≤ VGA_WIDTH
  last_lt : last.length < VGA_WIDTH

namespace Document

/-- All rows. -/
def rows (d : Document) : List (List Cell) := d.closed ++ [d.last]

/-- Nothing is written. -/
def empty : Document := ⟨[], [], by simp, by decide⟩

/-- The last row ends, with the cells in `more` added to it. -/
def endRow (d : Document) (more : List Cell) (h : d.last.length + more.length ≤ VGA_WIDTH) :
    Document where
  closed := d.closed ++ [d.last ++ more]
  last := []
  closed_le := by
    intro row hrow
    rcases List.mem_append.mp hrow with hrow | hrow
    · exact d.closed_le row hrow
    · rw [List.mem_singleton.mp hrow, List.length_append]
      exact h
  last_lt := by decide

/-- A newline ends the row; so does the eightieth character. -/
def write (d : Document) (color byte : U8) : Document :=
  if byte = 0x0A#8 then d.endRow [] (by simpa using d.last_lt.le)
  else if h : d.last.length + 1 < VGA_WIDTH then
    { d with
      last := d.last ++ [⟨byte, color⟩]
      last_lt := by simpa using h }
  else d.endRow [⟨byte, color⟩] d.last_lt

end Document

/-! ## What is on the screen -/

/-- A cell of the buffer holds a cell of the text. -/
def Holds (vga : Vga) (x y : ℕ) (cell : Cell) : Prop :=
  vga (cellIndex x y) = cell.char ∧ vga (cellIndex x y + 1) = cell.color

/-- The screen shows the last rows of a text, up to 25 of them, from the top. -/
def Painted (vga : Vga) (rows : List (List Cell)) : Prop :=
  ∀ y row, rows[rows.length - VGA_HEIGHT + y]? = some row →
    ∀ x cell, row[x]? = some cell → Holds vga x y cell

lemma writeCell_apply (vga : Vga) (index : ℕ) (c attr : U8) (i : ℕ) :
    writeCell vga index c attr i
      = if i = index + 1 then attr else if i = index then c else vga i := by
  simp only [writeCell, Function.update_apply]

/-- Filling a cell leaves the others as they are. -/
lemma Holds.writeCell_other {vga : Vga} {x y x' y' : ℕ} {cell : Cell} (h : Holds vga x y cell)
    (hx : x < VGA_WIDTH) (hx' : x' < VGA_WIDTH) (hne : ¬ (x = x' ∧ y = y')) (c attr : U8) :
    Holds (writeCell vga (cellIndex x' y') c attr) x y cell := by
  simp only [Holds, writeCell_apply, cellIndex, VGA_WIDTH] at h hx hx' ⊢
  rw [if_neg (by omega), if_neg (by omega), if_neg (by omega), if_neg (by omega)]
  exact h

lemma holds_writeCell (vga : Vga) (x y : ℕ) (cell : Cell) :
    Holds (writeCell vga (cellIndex x y) cell.char cell.color) x y cell := by
  simp [Holds, writeCell_apply]

/-! ### The loops of `scroll` -/

/-- The first `n` cells have been copied from the row below. -/
def Shifted (old : Vga) (n : ℕ) (vga : Vga) : Prop :=
  ∀ i, vga i = if i < 2 * n then old (i + 160) else old i

/-- Copying upwards never reads what it has written. -/
lemma Shifted.step {old vga : Vga} {n : ℕ} (h : Shifted old n vga) :
    Shifted old (n + 1) (writeCell vga (2 * n) (vga (2 * n + 160)) (vga (2 * n + 160 + 1))) := by
  intro i
  have hchar : vga (2 * n + 160) = old (2 * n + 160) := (h _).trans (if_neg (by omega))
  have hattr : vga (2 * n + 160 + 1) = old (2 * n + 160 + 1) := (h _).trans (if_neg (by omega))
  rw [writeCell_apply, hchar, hattr, h i]
  by_cases h1 : i = 2 * n + 1
  · rw [if_pos h1, if_pos (by omega), h1, Nat.add_right_comm]
  by_cases h0 : i = 2 * n
  · rw [if_neg h1, if_pos h0, if_pos (by omega), h0]
  · rw [if_neg h1, if_neg h0]
    by_cases hlt : i < 2 * n
    · rw [if_pos hlt, if_pos (by omega)]
    · rw [if_neg hlt, if_neg (by omega)]

lemma shifted_copyRows (vga : Vga) : Shifted vga 1920 (VgaConsole.copyRows vga) := by
  have hstart : Shifted vga (0 * 80) vga := fun i => (if_neg (by omega)).symm
  refine foldl_range_induction (P := fun y => Shifted vga (y * 80)) (k := 0) (n := 24) hstart ?_
  intro y _ vga' hrow
  have hnext : (0 + y + 1) * 80 = (0 + y) * 80 + 80 := by omega
  rw [hnext]
  refine foldl_range_induction (P := Shifted vga) (n := 80) hrow ?_
  intro x _ vga'' hcell
  have hdst : cellIndex x y = 2 * ((0 + y) * 80 + x) := by
    rw [cellIndex, VGA_WIDTH]
    omega
  have hsrc : cellIndex x (y + 1) = 2 * ((0 + y) * 80 + x) + 160 := by
    rw [cellIndex, VGA_WIDTH]
    omega
  simp only [hdst, hsrc]
  exact hcell.step

lemma clearLastRow_apply (vga : Vga) {i : ℕ} (hi : i < 3840) :
    VgaConsole.clearLastRow vga i = vga i := by
  refine foldl_range_induction (P := fun _ (vga' : Vga) => vga' i = vga i) (k := 0) rfl ?_
  intro j _ vga' h
  rw [Function.update_apply, if_neg, h]
  rw [VGA_HEIGHT, VGA_WIDTH]
  omega

/-- After scrolling, every cell but those of the last row is the one that was below it. -/
lemma Holds.scrolled {vga : Vga} {x y : ℕ} {cell : Cell} (h : Holds vga x (y + 1) cell)
    (hx : x < VGA_WIDTH) (hy : y < VGA_HEIGHT - 1) :
    Holds (VgaConsole.clearLastRow (VgaConsole.copyRows vga)) x y cell := by
  have hshift := shifted_copyRows vga
  simp only [Holds, cellIndex, VGA_WIDTH, VGA_HEIGHT] at h hx hy ⊢
  rw [clearLastRow_apply _ (by omega), clearLastRow_apply _ (by omega), hshift, hshift,
    if_pos (by omega), if_pos (by omega)]
  have hchar : (y * 80 + x) * 2 + 160 = ((y + 1) * 80 + x) * 2 := by omega
  have hattr : (y * 80 + x) * 2 + 1 + 160 = ((y + 1) * 80 + x) * 2 + 1 := by omega
  rw [hchar, hattr]
  exact h

/-! ### Rows on the screen -/

/-- The columns of a row are those of the screen. -/
lemma lt_width_of_getElem? {rows : List (List Cell)} (hrows : ∀ row ∈ rows, row.length ≤ VGA_WIDTH)
    {i x : ℕ} {row : List Cell} {cell : Cell} (hrow : rows[i]? = some row)
    (hcell : row[x]? = some cell) : x < VGA_WIDTH :=
  (List.getElem?_eq_some_iff.mp hcell).1.trans_le (hrows row (List.mem_of_getElem? hrow))

/-- A character is added to the last row. -/
lemma Painted.put {vga : Vga} {closed : List (List Cell)} {last : List Cell}
    (h : Painted vga (closed ++ [last])) (hclosed : ∀ row ∈ closed, row.length ≤ VGA_WIDTH)
    (hlast : last.length < VGA_WIDTH) {y₀ : ℕ} (hy₀ : y₀ = min (closed.length + 1) VGA_HEIGHT - 1)
    (cell : Cell) :
    Painted (writeCell vga (cellIndex last.length y₀) cell.char cell.color)
      (closed ++ [last ++ [cell]]) := by
  intro y row hrow x c hcell
  simp only [List.length_append, List.length_singleton] at hrow
  have hold := h y
  simp only [List.length_append, List.length_singleton] at hold
  rw [VGA_HEIGHT] at hrow hold hy₀
  by_cases hin : closed.length + 1 - 25 + y < closed.length
  · -- a row above the last one
    rw [List.getElem?_append_left hin] at hrow hold
    have hx := lt_width_of_getElem? hclosed hrow hcell
    exact (hold row hrow x c hcell).writeCell_other hx hlast (by omega) _ _
  · obtain ⟨hlt, -⟩ := List.getElem?_eq_some_iff.mp hrow
    rw [List.length_append, List.length_singleton] at hlt
    have hy : closed.length + 1 - 25 + y = closed.length := by omega
    obtain rfl : y = y₀ := by omega
    rw [hy, List.getElem?_concat_length, Option.some.injEq] at hrow
    subst hrow
    rcases Nat.lt_or_ge x last.length with hx | hx
    · rw [List.getElem?_append_left hx] at hcell
      rw [hy, List.getElem?_concat_length] at hold
      exact (hold last rfl x c hcell).writeCell_other (hx.trans hlast) hlast (by omega) _ _
    · obtain ⟨hlen, -⟩ := List.getElem?_eq_some_iff.mp hcell
      rw [List.length_append, List.length_singleton] at hlen
      obtain rfl : x = last.length := by omega
      rw [List.getElem?_concat_length, Option.some.injEq] at hcell
      subst hcell
      exact holds_writeCell vga _ _ _

/-- A row that has just begun has no cells. -/
lemma getElem?_of_cell {rows : List (List Cell)} {i x : ℕ} {row : List Cell} {cell : Cell}
    (hrow : (rows ++ [[]])[i]? = some row) (hcell : row[x]? = some cell) : rows[i]? = some row := by
  rcases Nat.lt_or_ge i rows.length with hlt | hge
  · rwa [List.getElem?_append_left hlt] at hrow
  · have hmem := List.mem_of_getElem? (List.getElem?_append_right hge ▸ hrow)
    rw [List.mem_singleton.mp hmem] at hcell
    cases hcell

/-- A row begins, and there is room for it. -/
lemma Painted.newRow {vga : Vga} {rows : List (List Cell)} (h : Painted vga rows)
    (hroom : rows.length < VGA_HEIGHT) : Painted vga (rows ++ [[]]) := by
  intro y row hrow x cell hcell
  have hrow := getElem?_of_cell hrow hcell
  refine h y row ?_ x cell hcell
  rw [List.length_append, List.length_singleton] at hrow
  rwa [show rows.length - VGA_HEIGHT = rows.length + 1 - VGA_HEIGHT by omega]

/-- A row begins, and the first one scrolls out. -/
lemma Painted.scrolled {vga : Vga} {rows : List (List Cell)} (h : Painted vga rows)
    (hfull : VGA_HEIGHT ≤ rows.length) (hrows : ∀ row ∈ rows, row.length ≤ VGA_WIDTH) :
    Painted (VgaConsole.clearLastRow (VgaConsole.copyRows vga)) (rows ++ [[]]) := by
  intro y row hrow x cell hcell
  have hrow := getElem?_of_cell hrow hcell
  have hx := lt_width_of_getElem? hrows hrow hcell
  obtain ⟨hlt, -⟩ := List.getElem?_eq_some_iff.mp hrow
  rw [List.length_append, List.length_singleton] at hrow hlt
  refine Holds.scrolled (h (y + 1) row ?_ x cell hcell) hx (by omega)
  rwa [show rows.length - VGA_HEIGHT + (y + 1) = rows.length + 1 - VGA_HEIGHT + y by omega]

/-! ## The simulation -/

/-- How many rows of a text are on the screen. -/
def Document.visible (d : Document) : ℕ := min d.rows.length VGA_HEIGHT

/-- The console shows the end of a text, and the cursor is where the text ends. -/
structure ShowsTail (c : VgaConsole) (d : Document) : Prop where
  cursorX : c.cursorX = d.last.length
  cursorY : c.cursorY = d.visible - 1
  cells : ∀ y < d.visible, ∀ row, d.rows[d.rows.length - d.visible + y]? = some row →
    ∀ x cell, row[x]? = some cell → Holds c.vga x y cell

lemma Document.length_rows (d : Document) : d.rows.length = d.closed.length + 1 := by
  simp [Document.rows]

lemma showsTail_iff {c : VgaConsole} {d : Document} :
    ShowsTail c d ↔
      c.cursorX = d.last.length ∧ c.cursorY = d.visible - 1 ∧ Painted c.vga d.rows := by
  have hfirst : d.rows.length - d.visible = d.rows.length - VGA_HEIGHT := by
    rw [Document.visible]
    omega
  constructor
  · intro h
    refine ⟨h.cursorX, h.cursorY, fun y row hrow => ?_⟩
    obtain ⟨hlt, -⟩ := List.getElem?_eq_some_iff.mp hrow
    refine h.cells y ?_ row (by rwa [hfirst])
    rw [Document.visible]
    omega
  · rintro ⟨hx, hy, hpainted⟩
    refine ⟨hx, hy, fun y _ row hrow => hpainted y row ?_⟩
    rwa [← hfirst]

/-- `newline`, after `more` has been added to the last row. -/
lemma showsTail_newline {c : VgaConsole} {d : Document} {more : List Cell}
    {hmore : d.last.length + more.length ≤ VGA_WIDTH} (hy : c.cursorY = d.visible - 1)
    (hpainted : Painted c.vga (d.closed ++ [d.last ++ more])) :
    ShowsTail c.newline (d.endRow more hmore) := by
  have hrows : (d.endRow more hmore).rows = (d.closed ++ [d.last ++ more]) ++ [[]] := rfl
  have hlen : (d.closed ++ [d.last ++ more]).length = d.closed.length + 1 := by simp
  have hwidth : ∀ row ∈ d.closed ++ [d.last ++ more], row.length ≤ VGA_WIDTH :=
    (d.endRow more hmore).closed_le
  rw [Document.visible, Document.length_rows] at hy
  rw [showsTail_iff, hrows, Document.visible, hrows, List.length_append, hlen, VgaConsole.newline]
  by_cases hroom : d.closed.length + 1 < VGA_HEIGHT
  · rw [if_neg (by simp only; omega)]
    exact ⟨rfl, by simp only [List.length_singleton]; omega, hpainted.newRow (by omega)⟩
  · rw [if_pos (by simp only; omega), VgaConsole.scroll]
    simp only [List.length_singleton]
    refine ⟨?_, ?_, hpainted.scrolled (by omega) hwidth⟩
    · rfl
    · omega

/-- **One byte** that is not a backspace. -/
lemma ShowsTail.writeByte {c : VgaConsole} {d : Document} (h : ShowsTail c d) (byte : U8) :
    ShowsTail (c.writeByte byte) (d.write c.color byte) := by
  obtain ⟨hx, hy, hpainted⟩ := showsTail_iff.mp h
  -- the character goes to the end of the last row
  have hput : Painted (writeCell c.vga (cellIndex c.cursorX c.cursorY) byte c.color)
      (d.closed ++ [d.last ++ [⟨byte, c.color⟩]]) := by
    rw [hx]
    refine hpainted.put d.closed_le d.last_lt ?_ ⟨byte, c.color⟩
    rw [hy, Document.visible, Document.length_rows]
  rw [VgaConsole.writeByte, Document.write]
  split_ifs with hnl hfits
  · refine showsTail_newline hy ?_
    rwa [List.append_nil]
  · rw [VgaConsole.putChar, if_neg (by simp only [VgaConsole.uartPutc]; omega), showsTail_iff]
    refine ⟨?_, ?_, hput⟩
    · simp [VgaConsole.uartPutc, hx]
    · simp only [VgaConsole.uartPutc, hy, Document.visible, Document.length_rows]
  · rw [VgaConsole.putChar, if_pos (by simp only [VgaConsole.uartPutc]; omega)]
    exact showsTail_newline hy hput

/-! ## Sequences of writes -/

/-- A byte that `write_str` does not treat as a backspace. -/
abbrev TextByte := { byte : U8 // ¬ (byte = 0x08#8 ∨ byte = 0x7F#8) }

/-- The calls. -/
inductive ConsoleOp where
  | writeStr (s : List TextByte)
  | setColor (fg bg : U8)

/-- One call. -/
def consoleStep (c : VgaConsole) : ConsoleOp → VgaConsole
  | .writeStr s => c.writeStr (s.map Subtype.val)
  | .setColor fg bg => c.setColor fg bg

/-- The text so far and the colour in force. -/
def documentStep (p : Document × U8) : ConsoleOp → Document × U8
  | .writeStr s => (s.foldl (fun d byte => d.write p.2 byte.val) p.1, p.2)
  | .setColor fg bg => (p.1, (bg <<< 4) ||| (fg &&& 0x0F#8))

/-- The screen is cleared, and then written to. -/
def VgaConsole.after (c : VgaConsole) (ops : List ConsoleOp) : VgaConsole :=
  ops.foldl consoleStep c.clearScreen

/-- The text that is written, beginning with some colour. -/
def documentOf (color : U8) (ops : List ConsoleOp) : Document :=
  (ops.foldl documentStep (.empty, color)).1

lemma newline_color (c : VgaConsole) : c.newline.color = c.color := by
  rw [VgaConsole.newline]
  split_ifs <;> rfl

lemma writeByte_color (c : VgaConsole) (byte : U8) : (c.writeByte byte).color = c.color := by
  rw [VgaConsole.writeByte]
  split_ifs
  · exact newline_color _
  · rw [VgaConsole.putChar]
    split_ifs
    · exact newline_color _
    · rfl

/-- **One call of `write_str`**, by induction on its bytes. -/
lemma ShowsTail.writeStr {c : VgaConsole} {d : Document} (h : ShowsTail c d) (s : List TextByte) :
    ShowsTail (c.writeStr (s.map Subtype.val))
        (s.foldl (fun d byte => d.write c.color byte.val) d) ∧
      (c.writeStr (s.map Subtype.val)).color = c.color := by
  induction s generalizing c d with
  | nil => exact ⟨h, rfl⟩
  | cons byte s ih =>
    have hstep := ih (h.writeByte byte.val)
    rw [writeByte_color] at hstep
    rw [List.map_cons, VgaConsole.writeStr, List.foldl_cons, if_neg byte.property]
    exact hstep

lemma ShowsTail.step {c : VgaConsole} {p : Document × U8}
    (h : ShowsTail c p.1 ∧ c.color = p.2) (op : ConsoleOp) :
    ShowsTail (consoleStep c op) (documentStep p op).1 ∧
      (consoleStep c op).color = (documentStep p op).2 := by
  obtain ⟨d, color⟩ := p
  obtain ⟨hshows, rfl⟩ := h
  cases op with
  | writeStr s => exact hshows.writeStr s
  | setColor fg bg => exact ⟨⟨hshows.cursorX, hshows.cursorY, hshows.cells⟩, rfl⟩

lemma showsTail_clearScreen (c : VgaConsole) : ShowsTail c.clearScreen .empty := by
  refine showsTail_iff.mpr ⟨rfl, rfl, fun y row hrow x cell hcell => ?_⟩
  have hmem := List.mem_of_getElem? hrow
  rw [List.mem_singleton.mp hmem] at hcell
  cases hcell

/-- **The console shows the tail of the text.**  After `clear_screen`, and any sequence of calls of
`write_str` with text that has no backspace, and of `set_color`: the cursor is at the end of the
last row of the document, the last 25 rows are on the screen from the top, and each of their cells
holds the character and the colour that was in force. -/
theorem console_shows_tail (c : VgaConsole) (ops : List ConsoleOp) :
    ShowsTail (c.after ops) (documentOf c.color ops) := by
  have hrun : ∀ (ops : List ConsoleOp) (c : VgaConsole) (p : Document × U8),
      ShowsTail c p.1 ∧ c.color = p.2 →
        ShowsTail (ops.foldl consoleStep c) (ops.foldl documentStep p).1 := by
    intro ops
    induction ops with
    | nil => exact fun c p h => h.1
    | cons op ops ih => exact fun c p h => ih _ _ (ShowsTail.step h op)
  exact hrun ops c.clearScreen (.empty, c.color) ⟨showsTail_clearScreen c, rfl⟩

end Masika
