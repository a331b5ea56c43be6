import Masika.Process.ControlBlock

/-!
# Process names

`set_comm` copies a name into the sixteen bytes of `comm`, at most fifteen bytes of it, and ends it
with a zero byte.  `get_comm_str` takes the bytes before the first zero byte and decodes them.

A string is a Lean `String`, whose bytes are valid UTF-8 as those of a `str` are, and decoding is
`String.fromUTF8?`.  The cut after fifteen bytes may fall into the middle of a character; then what
is left is not valid, and `get_comm_str` returns the empty string.  `nameKept_iff` says that this is
the only way in which a name is not kept.
-/

namespace Masika

/-- `name.as_bytes()`. -/
def asBytes (s : String) : List UInt8 := s.toByteArray.data.toList

lemma length_asBytes (s : String) : (asBytes s).length = s.utf8ByteSize := by
  simp [asBytes]

namespace ControlBlock

/-- At most 15 bytes, and a zero behind them. -/
def setComm (b : ControlBlock) (name : String) : ControlBlock :=
  let len := min name.utf8ByteSize 15
  { b with
    comm := ⟨(asBytes name).take len ++ 0 :: b.comm.val.drop (len + 1), by
      have := b.comm.property
      simp only [List.length_append, List.length_take, List.length_cons, List.length_drop,
        length_asBytes]
      omega⟩ }

/-- The position of the first zero byte is 16 when there is none. -/
def getCommStr (b : ControlBlock) : String :=
  let len := b.comm.val.findIdx (· == 0)
  (String.fromUTF8? (b.comm.val.take len).toByteArray).getD ""

end ControlBlock

/-! ## The bytes of a string -/

lemma asBytes_eq_flatMap (s : String) : asBytes s = s.toList.flatMap String.utf8EncodeChar := by
  rw [asBytes, ← String.utf8Encode_toList, List.utf8Encode, List.toList_data_toByteArray]

/-- Only the character NUL has a zero byte. -/
lemma zero_notMem_utf8EncodeChar {c : Char} (hc : c ≠ '\x00') :
    (0 : UInt8) ∉ String.utf8EncodeChar c := by
  have hval : c.toNat ≠ 0 := fun h => hc (Char.ext (UInt32.toNat_inj.mp h))
  have hnat : c.val.toNat = c.toNat := rfl
  rw [String.utf8EncodeChar]
  split_ifs
  · simp [← UInt8.toNat_inj]
    omega
  · simp [← UInt8.toNat_inj]
    omega
  · simp [← UInt8.toNat_inj]
    omega
  · simp [← UInt8.toNat_inj]
    omega

lemma zero_notMem_asBytes {s : String} (hs : '\x00' ∉ s.toList) : (0 : UInt8) ∉ asBytes s := by
  rw [asBytes_eq_flatMap, List.mem_flatMap]
  rintro ⟨c, hc, hzero⟩
  exact zero_notMem_utf8EncodeChar (fun h => hs (h ▸ hc)) hzero

lemma take_toByteArray (s : String) (n : ℕ) :
    ((asBytes s).take n).toByteArray = s.toByteArray.extract 0 n := by
  apply ByteArray.ext
  apply Array.toList_inj.mp
  rw [List.toList_data_toByteArray, ByteArray.data_extract, Array.toList_extract]
  simp [asBytes]

/-- What is read back is what was copied, if that is valid. -/
lemma getCommStr_setComm (b : ControlBlock) {name : String} (hname : '\x00' ∉ name.toList) :
    (b.setComm name).getCommStr =
      (String.fromUTF8? (name.toByteArray.extract 0 (min name.utf8ByteSize 15))).getD "" := by
  have hzero : (0 : UInt8) ∉ (asBytes name).take (min name.utf8ByteSize 15) := fun h =>
    zero_notMem_asBytes hname (List.mem_of_mem_take h)
  have hfind : (b.setComm name).comm.val.findIdx (· == 0) =
      ((asBytes name).take (min name.utf8ByteSize 15)).length := by
    rw [ControlBlock.setComm, List.findIdx_append, List.findIdx_eq_length.mpr]
    · simp [List.findIdx_cons]
    · intro x hx
      exact beq_eq_false_iff_ne.mpr fun h => hzero (h ▸ hx)
  rw [ControlBlock.getCommStr, hfind, ControlBlock.setComm]
  simp only
  rw [List.take_left, take_toByteArray]

/-! ## What should be read back -/

/-- **A name is kept**: what is read back is its longest prefix with at most 15 bytes that ends with
a character, and the whole of it if it is short enough. -/
structure NameKept (name result : String) : Prop where
  isPrefix : result.toList <+: name.toList
  short : result.utf8ByteSize ≤ 15
  longest : ∀ p : String, p.toList <+: name.toList → p.utf8ByteSize ≤ 15 →
    p.utf8ByteSize ≤ result.utf8ByteSize
  whole : name.utf8ByteSize ≤ 15 → result = name

lemma utf8ByteSize_le_of_prefix {p s : String} (h : p.toList <+: s.toList) :
    p.utf8ByteSize ≤ s.utf8ByteSize := by
  obtain ⟨rest, hrest⟩ := h
  rw [← length_asBytes, ← length_asBytes, asBytes_eq_flatMap, asBytes_eq_flatMap, ← hrest,
    List.flatMap_append, List.length_append]
  exact Nat.le_add_right _ _

lemma nameKept_self {name : String} (h : name.utf8ByteSize ≤ 15) : NameKept name name where
  isPrefix := List.prefix_rfl
  short := h
  longest _ hp _ := utf8ByteSize_le_of_prefix hp
  whole _ := rfl

/-- A prefix of 15 bytes is the longest. -/
lemma nameKept_of_size {name result : String} (hlong : 15 < name.utf8ByteSize)
    (hbegins : result.toList <+: name.toList) (hsize : result.utf8ByteSize = 15) :
    NameKept name result where
  isPrefix := hbegins
  short := hsize.le
  longest _ _ hp := hp.trans hsize.ge
  whole h := absurd h (not_le.mpr hlong)

/-- Every name has a first character, and it fits. -/
lemma not_nameKept_empty {name : String} (hlong : 15 < name.utf8ByteSize) : ¬ NameKept name "" := by
  intro h
  cases hname : name.toList with
  | nil =>
    rw [String.toList_eq_nil_iff.mp hname, String.utf8ByteSize_empty] at hlong
    omega
  | cons c rest =>
    have hsize : (String.singleton c).utf8ByteSize = c.utf8Size := String.utf8ByteSize_singleton
    have hfirst : (String.singleton c).toList <+: name.toList := by
      rw [hname]
      exact ⟨rest, by simp⟩
    have hle := h.longest (String.singleton c) hfirst (by have := c.utf8Size_le_four; omega)
    rw [hsize, String.utf8ByteSize_empty] at hle
    exact absurd hle (not_le.mpr c.utf8Size_pos)

/-- The string that the first bytes of a name decode to. -/
lemma fromUTF8_extract_prefix {name : String} {n : ℕ} (hn : n ≤ name.utf8ByteSize)
    (hvalid : (name.toByteArray.extract 0 n).IsValidUTF8) :
    (String.fromUTF8 _ hvalid).toList <+: name.toList ∧
      (String.fromUTF8 _ hvalid).utf8ByteSize = n := by
  constructor
  · refine List.isPrefix_of_utf8Encode_append_eq_utf8Encode
      (name.toByteArray.extract n name.utf8ByteSize) ?_
    rw [String.utf8Encode_toList, String.utf8Encode_toList]
    change name.toByteArray.extract 0 n ++ name.toByteArray.extract n name.utf8ByteSize = _
    rw [ByteArray.extract_append_extract, Nat.zero_min, Nat.max_eq_right hn,
      ← String.size_toByteArray, ByteArray.extract_zero_size]
  · rw [String.fromUTF8, String.utf8ByteSize_ofByteArray, ByteArray.size_extract,
      String.size_toByteArray]
    omega

/-- **When a name is kept**: it has at most 15 bytes, or a character ends after 15 bytes. -/
theorem nameKept_iff (b : ControlBlock) {name : String} (hname : '\x00' ∉ name.toList) :
    NameKept name (b.setComm name).getCommStr ↔
      name.utf8ByteSize ≤ 15 ∨ (⟨15⟩ : String.Pos.Raw).IsValid name := by
  rw [getCommStr_setComm b hname]
  rcases Nat.lt_or_ge 15 name.utf8ByteSize with hlong | hshort
  · rw [Nat.min_eq_right hlong.le, String.fromUTF8?]
    have hiff : (⟨15⟩ : String.Pos.Raw).IsValid name ↔
        (name.toByteArray.extract 0 15).IsValidUTF8 := by
      rw [String.Pos.Raw.isValid_iff_isValidUTF8_extract_zero, and_iff_right]
      exact String.Pos.Raw.le_iff.mpr hlong.le
    rw [or_iff_right (not_le.mpr hlong), hiff]
    split_ifs with hvalid
    · obtain ⟨hbegins, hsize⟩ := fromUTF8_extract_prefix hlong.le hvalid
      exact iff_of_true (nameKept_of_size hlong hbegins hsize) hvalid
    · exact iff_of_false (not_nameKept_empty hlong) hvalid
  · have hall : name.toByteArray.extract 0 name.utf8ByteSize = name.toByteArray := by
      rw [← String.size_toByteArray, ByteArray.extract_zero_size]
    rw [Nat.min_eq_left hshort, hall, String.fromUTF8?, dif_pos name.isValidUTF8]
    exact iff_of_true (nameKept_self hshort) (.inl hshort)

/-- The name of the first process. -/
theorem nameKept_init : NameKept "init" ((ControlBlock.new 0#64).setComm "init").getCommStr :=
  (nameKept_iff _ (by decide)).mpr (.inl (by decide))

/-- **Eight characters of two bytes each**: the cut falls into the last one, and nothing is read
back. -/
theorem name_cut_in_character :
    ((ControlBlock.new 0#64).setComm "éééééééé").getCommStr = "" ∧
      ¬ NameKept "éééééééé" ((ControlBlock.new 0#64).setComm "éééééééé").getCommStr := by
  have hsize : "éééééééé".utf8ByteSize = 16 := by decide +kernel
  have hcut : ¬ ("éééééééé".toByteArray.extract 0 15).IsValidUTF8 := by decide +kernel
  have hempty : ((ControlBlock.new 0#64).setComm "éééééééé").getCommStr = "" := by
    rw [getCommStr_setComm _ (by decide), hsize, show min 16 15 = 15 from rfl, String.fromUTF8?,
      dif_neg hcut, Option.getD_none]
  refine ⟨hempty, ?_⟩
  rw [hempty]
  exact not_nameKept_empty (by decide +kernel)

end Masika
