import Masika.Console.Screen

/-!
# The buffer of the console

`buffer_write` collects bytes in an array and writes them out when it is full; `flush_buffer` writes
them out at once.  What this is for is said by `WriteBuffer`, over any type of items: items are
*pending* until they are *sent*, at most `n` of them, and `contents` is both.

The console realises it: what it has sent to the serial line, which is where `write_byte` begins, is
`sent`, and the part of the array before `buf_pos` is `pending`.
-/

namespace Masika

/-! ## Items that wait to be sent -/

/-- What has been sent, and what is buffered. -/
structure WriteBuffer (α : Type) (n : ℕ) where
  sent : List α
  pending : List α
  pending_le : pending.length ≤ n

namespace WriteBuffer

variable {α : Type} {n : ℕ}

/-- Nothing yet. -/
def empty : WriteBuffer α n := ⟨[], [], Nat.zero_le n⟩

/-- All that was written. -/
def contents (q : WriteBuffer α n) : List α := q.sent ++ q.pending

/-- Send what is buffered. -/
def flush (q : WriteBuffer α n) : WriteBuffer α n := ⟨q.contents, [], Nat.zero_le n⟩

/-- An item that finds no room waits alone. -/
def write [NeZero n] (q : WriteBuffer α n) (a : α) : WriteBuffer α n :=
  if h : q.pending.length < n then ⟨q.sent, q.pending ++ [a], List.length_append.trans_le h⟩
  else ⟨q.contents, [a], NeZero.one_le⟩

lemma contents_flush (q : WriteBuffer α n) : q.flush.contents = q.contents :=
  List.append_nil _

lemma contents_write [NeZero n] (q : WriteBuffer α n) (a : α) :
    (q.write a).contents = q.contents ++ [a] := by
  rw [write]
  split_ifs
  · exact (List.append_assoc ..).symm
  · rfl

end WriteBuffer

/-! ## The calls -/

/-- What a call does. -/
def BufferCall.apply (q : WriteBuffer U8 4096) : BufferCall → WriteBuffer U8 4096
  | .bufferWrite char => q.write char
  | .flushBuffer => q.flush

/-- What a call gives to the buffer. -/
def BufferCall.given : BufferCall → List U8
  | .bufferWrite char => [char]
  | .flushBuffer => []

lemma contents_apply (q : WriteBuffer U8 4096) (b : BufferCall) :
    (b.apply q).contents = q.contents ++ b.given := by
  cases b with
  | bufferWrite char => exact q.contents_write char
  | flushBuffer => exact q.contents_flush.trans (List.append_nil _).symm

lemma contents_foldl_apply (calls : List BufferCall) (q : WriteBuffer U8 4096) :
    (calls.foldl BufferCall.apply q).contents = q.contents ++ calls.flatMap BufferCall.given := by
  induction calls generalizing q with
  | nil => exact (List.append_nil _).symm
  | cons b calls ih =>
    rw [List.foldl_cons, ih, contents_apply, List.flatMap_cons, List.append_assoc]

/-! ## The console realises the buffer -/

lemma newline_uart (v : VgaConsole) : v.newline.uart = v.uart := by
  rw [VgaConsole.newline]
  split_ifs <;> rfl

/-- A byte that is written is sent. -/
lemma writeByte_uart (v : VgaConsole) (byte : U8) : (v.writeByte byte).uart = v.uart ++ [byte] := by
  rw [VgaConsole.writeByte]
  split_ifs
  · exact newline_uart _
  · rw [VgaConsole.putChar]
    split_ifs
    · exact newline_uart _
    · rfl

lemma writeBytes_uart (v : VgaConsole) (bytes : List U8) :
    (v.writeBytes bytes).uart = v.uart ++ bytes := by
  induction bytes generalizing v with
  | nil => exact (List.append_nil _).symm
  | cons byte bytes ih =>
    rw [VgaConsole.writeBytes, List.foldl_cons]
    exact (ih _).trans (by rw [writeByte_uart, List.append_assoc, List.singleton_append])

/-- The console holds what a buffer holds. -/
def Realises (q : WriteBuffer U8 4096) (c : BufferedConsole) (vga : Vga) : Prop :=
  ∃ buffer bufPos v, bufPos ≤ 4096 ∧ Shows buffer bufPos v c vga ∧ v.uart = q.sent ∧
    buffer.toList.take bufPos = q.pending

/-- **One call.** -/
lemma Realises.bufferCall {q : WriteBuffer U8 4096} {c : BufferedConsole} {vga : Vga}
    (h : Realises q c vga) (b : BufferCall) :
    (c.bufferCall b).Ends OnScreen vga (Realises (b.apply q)) := by
  obtain ⟨buffer, bufPos, v, hpos, hshows, hsent, hpending⟩ := h
  have hlen : q.pending.length = bufPos := by simp [← hpending, hpos]
  have hwritten : (v.writeBytes (buffer.toList.take bufPos)).uart = q.contents := by
    rw [writeBytes_uart, hsent, hpending, WriteBuffer.contents]
  cases b with
  | bufferWrite char =>
    rw [BufferCall.apply, WriteBuffer.write]
    rcases Nat.lt_or_eq_of_le hpos with hlt | rfl
    · rw [dif_pos (hlen ▸ hlt)]
      refine (hshows.bufferWrite_of_lt hlt char).mono fun c' vga' h' => ?_
      refine ⟨_, _, v, hlt, h', hsent, ?_⟩
      rw [take_set_succ, hpending]
    · rw [dif_neg (by omega)]
      refine (hshows.bufferWrite_of_full char).mono fun c' vga' h' => ?_
      rw [List.take_of_length_le (by simp)] at hwritten
      exact ⟨_, 1, _, by decide, h', hwritten, take_set_succ buffer (Nat.zero_lt_succ _) char⟩
  | flushBuffer =>
    refine (hshows.flushBuffer hpos).mono fun c' vga' h' => ?_
    exact ⟨buffer, 0, _, Nat.zero_le _, h', hwritten, rfl⟩

lemma realises_new (vga : Vga) : Realises .empty .new vga :=
  ⟨_, 0, _, Nat.zero_le _, shows_new vga, rfl, rfl⟩

/-- **The buffer loses and reorders nothing.**  After any sequence of calls of `buffer_write` and
`flush_buffer` on a new console: no call has left early, `buf_pos` is at most 4096, and the bytes
sent to `write_byte`, followed by those of the buffer up to `buf_pos`, are the bytes that were given
to `buffer_write`, in order. -/
theorem buffer_keeps_order (calls : List BufferCall) (vga : Vga) :
    ∃ c, (BufferedConsole.afterCalls (calls.map .buffered) vga).result = .ok c ∧
      c.bufPos ≤ 4096 ∧
      c.uart ++ c.buffer.toList.take c.bufPos = calls.flatMap BufferCall.given := by
  have hrun : (BufferedConsole.afterCalls (calls.map .buffered)).Ends OnScreen vga
      (Realises (calls.foldl BufferCall.apply .empty)) := by
    rw [BufferedConsole.afterCalls, List.foldlM_map]
    exact .foldlM calls (fun b _ q c vga h => h.bufferCall b) (realises_new vga)
  obtain ⟨-, c, hc, buffer, bufPos, v, hpos, hshows, hsent, hpending⟩ := hrun
  obtain ⟨rfl, -, rfl, rfl⟩ := hshows
  refine ⟨c, hc, hpos, ?_⟩
  have hcontents := contents_foldl_apply calls .empty
  rw [WriteBuffer.contents, ← hsent, ← hpending] at hcontents
  exact hcontents

end Masika
