import Masika.Syscall.Strings

/-!
# Copying a string that changes

`copy_from_user_with_limit` measures a string of the user and then copies as many bytes as it has
measured.  User memory can change between any two reads, so a read is given by a history: what the
memory is at the time of each read.

* Reads of one pass go to one address after another, so that a pass sees a fixed memory, the bytes
  of different times put together (`seen`).
* The two passes see two memories.  What has been measured in the first is that the string ends,
  and where; nothing is known about the second.  The result never reaches the limit, but it can
  contain zeros, and then it is not the string it is taken for (`resistsRaces_iff`).

For a memory that does not change the model here and that of `Syscall/UserCopy` are the same
(`copyFromUserWithLimit_constant`).
-/

namespace Masika

/-- What user memory is at the time of each read. -/
abbrev History := ℕ → U64 → U8

/-- A call during which others write to user memory.  The state is the number of reads so far. -/
abbrev RacingCall := ReaderT History (StateT ℕ (Except ℤ))

namespace Racing

/-! ## The code -/

/-- `ptr::read_volatile` of user memory. -/
def readVolatile (a : U64) : RacingCall U8 := fun history reads =>
  .ok (history reads a, reads + 1)

/-- The loop of `copy_from_user` from round `i` on, with the bytes it stores. -/
def copyLoop (U : UserAddrs) (src : U64) : ℕ → ℕ → RacingCall (List U8)
  | 0, _ => pure []
  | left + 1, i =>
    if ¬ U.isUserAddr (src + BitVec.ofNat 64 i) then throw (-1)
    else do
      let byte ← readVolatile (src + BitVec.ofNat 64 i)
      let rest ← copyLoop U src left (i + 1)
      pure (byte :: rest)

/-- `copy_from_user`, with the bytes it stores. -/
def copyFromUser (U : UserAddrs) (src len : U64) : RacingCall (List U8) :=
  if ¬ U.isUserAddr src ∨ ¬ U.isUserAddr (src + len) then throw (-1)
  else copyLoop U src len.toNat 0

/-- One byte of the first pass. -/
def fetchByte (U : UserAddrs) (ptr : U64) : RacingCall U8 :=
  if ¬ U.validateUserPtr ptr 1#64 then throw (-1)
  else do
    let bytes ← copyFromUser U ptr 1#64
    pure (bytes.headD 0#8)

/-- The loop that looks for the end of the string. -/
def measure (U : UserAddrs) (src : U64) : ℕ → ℕ → RacingCall ℕ
  | 0, len => pure len
  | left + 1, len => do
    let byte ← fetchByte U (src + BitVec.ofNat 64 len)
    if byte = 0#8 then pure len else measure U src left (len + 1)

/-- Measure, then copy. -/
def copyFromUserWithLimit (U : UserAddrs) (src limit : U64) : RacingCall (List U8) := do
  let len ← measure U src limit.toNat 0
  if len = limit.toNat then throw (-1)
  else copyFromUser U src (BitVec.ofNat 64 len)

/-- The result of the call when its reads go as in `history`. -/
def received (U : UserAddrs) (src limit : U64) (history : History) : Except ℤ (List U8) :=
  ((copyFromUserWithLimit U src limit).run history).run' 0

/-! ## One pass -/

section Binds

variable {α β : Type} {m : RacingCall α} {f : α → RacingCall β} {history : History} {reads : ℕ}

lemma bind_of_ok {a : α} {reads' : ℕ} (h : m history reads = .ok (a, reads')) :
    (m >>= f) history reads = f a history reads' := by
  change Except.bind (m history reads) (fun r => f r.1 history r.2) = _
  rw [h]
  rfl

lemma bind_of_error {e : ℤ} (h : m history reads = .error e) :
    (m >>= f) history reads = .error e := by
  change Except.bind (m history reads) (fun r => f r.1 history r.2) = _
  rw [h]
  rfl

end Binds

/-- The memory that a pass sees which reads from `src` on and starts after `reads` reads. -/
def seen (history : History) (reads : ℕ) (src : U64) : U64 → U8 := fun a =>
  history (reads + (a - src).toNat) a

section Passes

variable {U : UserAddrs} {src ptr : U64} {history : History}

lemma seen_add {reads i : ℕ} (hi : i < 2 ^ 64) :
    seen history reads src (src + BitVec.ofNat 64 i)
      = history (reads + i) (src + BitVec.ofNat 64 i) := by
  rw [seen, toNat_add_ofNat_sub, Nat.mod_eq_of_lt hi]

/-- **A copy inside user memory** stores what the reads return.  Round `i` makes read
`first + i`. -/
lemma copyLoop_eq (history : History) (first left : ℕ) : ∀ i : ℕ,
    (∀ k < left, U.isUserAddr (src + BitVec.ofNat 64 (i + k)) = true) →
    copyLoop U src left i history (first + i)
      = .ok ((List.range' i left).map fun k => history (first + k) (src + BitVec.ofNat 64 k),
          first + i + left) := by
  induction left with
  | zero =>
    intro i _
    rfl
  | succ left ih =>
    intro i huser
    have hrest := ih (i + 1) fun k hk => by
      rw [show i + 1 + k = i + (k + 1) by omega]
      exact huser (k + 1) (by omega)
    have hfirst : U.isUserAddr (src + BitVec.ofNat 64 i) = true := huser 0 (by omega)
    rw [copyLoop, if_neg (not_not.mpr hfirst)]
    refine Eq.trans (bind_of_ok rfl) (Eq.trans (bind_of_ok hrest) ?_)
    rw [List.range'_succ, List.map_cons,
      show first + i + (left + 1) = first + (i + 1) + left by omega]
    rfl

/-- A whole copy sees one memory. -/
lemma copyFromUser_eq {len : U64} (history : History) (reads : ℕ)
    (hends : U.isUserAddr src = true ∧ U.isUserAddr (src + len) = true)
    (hinside : ∀ k < len.toNat, U.isUserAddr (src + BitVec.ofNat 64 k) = true) :
    copyFromUser U src len history reads
      = .ok ((List.range len.toNat).map fun k =>
          seen history reads src (src + BitVec.ofNat 64 k), reads + len.toNat) := by
  have hloop := copyLoop_eq history reads len.toNat 0 fun k hk => by
    rw [Nat.zero_add]
    exact hinside k hk
  rw [copyFromUser, if_neg (by simp [hends])]
  refine hloop.trans ?_
  have hseen : ∀ k ∈ List.range len.toNat, history (reads + k) (src + BitVec.ofNat 64 k)
      = seen history reads src (src + BitVec.ofNat 64 k) := by
    intro k hk
    exact (seen_add (lt_trans (List.mem_range.mp hk) len.isLt)).symm
  rw [← List.range_eq_range', List.map_congr_left hseen, Nat.add_zero]

lemma fetchByte_refused (h : U.validateUserPtr ptr 1#64 = false) (reads : ℕ) :
    fetchByte U ptr history reads = .error (-1) := by
  rw [fetchByte, if_pos (by simp [h])]
  rfl

lemma fetchByte_of_valid (h : U.validateUserPtr ptr 1#64 = true) (reads : ℕ) :
    fetchByte U ptr history reads = .ok (history reads ptr, reads + 1) := by
  have hcopy := copyFromUser_eq history reads
    (UserAddrs.validateUserPtr_ends h (by decide))
    fun k hk => UserAddrs.validateUserPtr_inside h hk
  rw [fetchByte, if_neg (by simp [h])]
  refine (bind_of_ok hcopy).trans ?_
  change Except.ok (seen history reads ptr (ptr + 0#64), _) = _
  rw [seen_add (by decide)]
  simp

/-- **The first pass** looks for the end of the string in one memory.  Round `len` makes read
`len`. -/
lemma measure_cases (left : ℕ) : ∀ len : ℕ, len + left < 2 ^ 64 →
    Unended U (seen history 0 src) src len →
    (∃ k < len + left, EndsAt U (seen history 0 src) src k ∧
        measure U src left len history len = .ok (k, k + 1)) ∨
      (Unended U (seen history 0 src) src (len + left) ∧
        measure U src left len history len = .ok (len + left, len + left)) ∨
      ((∀ k < len + left, ¬ EndsAt U (seen history 0 src) src k) ∧
        measure U src left len history len = .error (-1)) := by
  induction left with
  | zero => exact fun len _ h => .inr (.inl ⟨h, rfl⟩)
  | succ left ih =>
    intro len hfits hunended
    have hbyte : seen history 0 src (src + BitVec.ofNat 64 len)
        = history len (src + BitVec.ofNat 64 len) := by
      rw [seen_add (by omega), Nat.zero_add]
    cases hvalid : U.validateUserPtr (src + BitVec.ofNat 64 len) 1#64 with
    | false =>
      refine .inr (.inr ⟨fun k _ hend => ?_, bind_of_error (fetchByte_refused hvalid len)⟩)
      rcases Nat.eq_or_lt_of_le (hunended.le_of_endsAt hend) with rfl | hlt
      · rw [hend.2.1] at hvalid
        cases hvalid
      · rw [(hend.1 len hlt).1] at hvalid
        cases hvalid
    | true =>
      have hround : measure U src (left + 1) len history len = _ :=
        bind_of_ok (fetchByte_of_valid hvalid len)
      by_cases hzero : history len (src + BitVec.ofNat 64 len) = 0#8
      · rw [if_pos hzero] at hround
        exact .inl ⟨len, by omega, ⟨hunended, hvalid, hbyte.trans hzero⟩, hround⟩
      · rw [if_neg hzero] at hround
        rw [hround, show len + (left + 1) = len + 1 + left by omega]
        exact ih (len + 1) (by omega)
          (unended_succ.mpr ⟨hunended, hvalid, by rwa [hbyte]⟩)

/-- **The two passes together.**  The length comes from the first, the bytes from the second. -/
lemma received_cases (U : UserAddrs) (src limit : U64) (history : History) :
    (∃ n < limit.toNat, EndsAt U (seen history 0 src) src n ∧
        received U src limit history = .ok ((List.range n).map fun k =>
          seen history (n + 1) src (src + BitVec.ofNat 64 k))) ∨
      ((∀ n < limit.toNat, ¬ EndsAt U (seen history 0 src) src n) ∧
        received U src limit history = .error (-1)) := by
  have hreceived : ∀ {result}, copyFromUserWithLimit U src limit history 0 = result →
      received U src limit history = result.map Prod.fst := by
    rintro result rfl
    rfl
  have hlimit := limit.isLt
  rcases measure_cases limit.toNat 0 (by omega) (unended_zero U (seen history 0 src) src) with
    ⟨n, hn, hend, hok⟩ | ⟨hunended, hok⟩ | ⟨hno, herror⟩
  · rw [Nat.zero_add] at hn
    have htoNat : (BitVec.ofNat 64 n).toNat = n := by
      rw [BitVec.toNat_ofNat, Nat.mod_eq_of_lt (by omega)]
    have hends : EndsAt U (seen history 0 src) src (BitVec.ofNat 64 n).toNat := by rwa [htoNat]
    -- the second pass cannot fail
    have hcopy := copyFromUser_eq history (n + 1) hends.ends fun k hk => hends.inside hk.le
    rw [htoNat] at hcopy
    have hrest := bind_of_ok (f := fun len => if len = limit.toNat then throw (-1)
      else copyFromUser U src (BitVec.ofNat 64 len)) hok
    rw [if_neg (by omega), hcopy] at hrest
    exact .inl ⟨n, hn, hend, hreceived hrest⟩
  · have hrest := bind_of_ok (f := fun len => if len = limit.toNat then throw (-1)
      else copyFromUser U src (BitVec.ofNat 64 len)) hok
    rw [if_pos (Nat.zero_add _)] at hrest
    refine .inr ⟨fun n hn hend => ?_, hreceived hrest⟩
    have := hunended.le_of_endsAt hend
    omega
  · refine .inr ⟨fun n hn => hno n (by omega), hreceived (bind_of_error herror)⟩

end Passes

end Racing

open Racing

/-! ## Races -/

/-- Whatever is received is shorter than the limit and has no zero in it. -/
def ResistsRaces (U : UserAddrs) (src limit : U64) (history : History) : Prop :=
  ∀ bytes, received U src limit history = .ok bytes →
    bytes.length < limit.toNat ∧ 0#8 ∉ bytes

section Races

variable {U : UserAddrs} {src limit : U64} {history : History}

/-- The bytes of the result are what the second pass reads. -/
lemma zero_mem_iff {n : ℕ} (hn : n < 2 ^ 64) :
    0#8 ∈ (List.range n).map (fun k => seen history (n + 1) src (src + BitVec.ofNat 64 k)) ↔
      ∃ k < n, history (n + 1 + k) (src + BitVec.ofNat 64 k) = 0#8 := by
  rw [List.mem_map]
  refine exists_congr fun k => ?_
  rw [List.mem_range]
  refine and_congr_right fun hk => ?_
  rw [seen_add (by omega)]

lemma resistsRaces_of_reads (h : ∀ n < limit.toNat, EndsAt U (seen history 0 src) src n →
    ∀ k < n, history (n + 1 + k) (src + BitVec.ofNat 64 k) ≠ 0#8) :
    ResistsRaces U src limit history := by
  intro bytes hbytes
  rcases received_cases U src limit history with ⟨n, hn, hend, hok⟩ | ⟨-, herror⟩
  · rw [hok, Except.ok.injEq] at hbytes
    subst hbytes
    refine ⟨by rwa [List.length_map, List.length_range], fun hmem => ?_⟩
    obtain ⟨k, hk, hzero⟩ := (zero_mem_iff (lt_trans hn limit.isLt)).mp hmem
    exact h n hn hend k hk hzero
  · rw [herror] at hbytes
    cases hbytes

end Races

/-- **When the result is a string.**  If the first pass finds the end of the string after `n` bytes,
then none of the `n` reads of the second pass, which come after the `n + 1` of the first, may return
zero. -/
theorem resistsRaces_iff (U : UserAddrs) (src limit : U64) (history : History) :
    ResistsRaces U src limit history ↔
      ∀ n < limit.toNat, EndsAt U (seen history 0 src) src n →
        ∀ k < n, history (n + 1 + k) (src + BitVec.ofNat 64 k) ≠ 0#8 := by
  refine ⟨fun h n hn hend k hk hzero => ?_, resistsRaces_of_reads⟩
  rcases received_cases U src limit history with ⟨n', -, hend', hok⟩ | ⟨hno, -⟩
  · rw [← hend.unique hend'] at hok
    exact (h _ hok).2 ((zero_mem_iff (lt_trans hn limit.isLt)).mpr ⟨k, hk, hzero⟩)
  · exact hno n hn hend

/-- **A string of one byte that has become empty** when it is read again is received as a zero. -/
theorem second_pass_reads_zero :
    received lowerHalf 0x40000000#64 2#64 (fun reads _ => if reads = 0 then 1#8 else 0#8)
        = .ok [0#8] ∧
      ¬ ResistsRaces lowerHalf 0x40000000#64 2#64
        (fun reads _ => if reads = 0 then 1#8 else 0#8) := by
  have hreceived : received lowerHalf 0x40000000#64 2#64
      (fun reads _ => if reads = 0 then 1#8 else 0#8) = .ok [0#8] := rfl
  exact ⟨hreceived, fun h => (h _ hreceived).2 (List.mem_singleton.mpr rfl)⟩

/-! ## Memory that does not change -/

/-- Nothing is wrong as long as nobody writes. -/
theorem resistsRaces_constant (U : UserAddrs) (src limit : U64) (mem : U64 → U8) :
    ResistsRaces U src limit fun _ => mem :=
  resistsRaces_of_reads fun _ _ hend k hk => (hend.1 k hk).2

/-- A string that has been measured is copied to kernel memory. -/
lemma copyFromUser_of_endsAt {U : UserAddrs} {src dst len : U64} {mem mem' : U64 → U8}
    (hend : EndsAt U mem src len.toNat)
    (hdst : ∀ a ∈ span dst len.toNat, U.isUserAddr a = false) (hsame : SameUser U mem mem') :
    (U.copyFromUser dst src len mem').result = .ok () ∧
      ∀ k < len.toNat, (U.copyFromUser dst src len mem').mem (dst + BitVec.ofNat 64 k)
        = mem (src + BitVec.ofNat 64 k) := by
  have hinside : ∀ k < len.toNat, U.isUserAddr (src + BitVec.ofNat 64 k) = true :=
    fun k hk => hend.inside hk.le
  have hapart : Disjoint (span src len.toNat) (span dst len.toNat) := by
    rw [Set.disjoint_left]
    intro a hsrc hadst
    have huser := hinside _ (mem_span.mp hsrc)
    rw [add_ofNat_sub_toNat, hdst a hadst] at huser
    cases huser
  obtain ⟨hresult, hmem⟩ := UserAddrs.copyFromUser_moves hend.ends hinside hapart mem'
  refine ⟨hresult, fun k hk => ?_⟩
  rw [hmem, moved_add hk len.isLt.le]
  exact hsame _ (hinside k hk)

/-- **The two models of the call agree** on a memory that does not change: both fail, or the bytes
received here are those that the vector there holds. -/
theorem copyFromUserWithLimit_constant {U : UserAddrs} {tmp vec limit : U64}
    (htmp : U.isUserAddr tmp = false)
    (hvec : ∀ a ∈ span vec limit.toNat, U.isUserAddr a = false) (src : U64) (mem : U64 → U8) :
    (∃ bytes, received U src limit (fun _ => mem) = .ok bytes ∧
        (U.copyFromUserWithLimit tmp vec src limit mem).result
          = .ok ⟨vec, BitVec.ofNat 64 bytes.length⟩ ∧
        bytes = (List.range bytes.length).map fun k =>
          (U.copyFromUserWithLimit tmp vec src limit mem).mem (vec + BitVec.ofNat 64 k)) ∨
      (received U src limit (fun _ => mem) = .error (-1) ∧
        (U.copyFromUserWithLimit tmp vec src limit mem).result = .error (-1)) := by
  have hlimit := limit.isLt
  have hreceived := received_cases U src limit fun _ => mem
  rcases scan_string (n := limit.toNat) fun k _ => looksAt_measure htmp mem src k with
    ⟨n, hn, hend, hok, hsame⟩ | ⟨hunended, hok⟩ | ⟨hgoes, hno, herror⟩
  · rcases hreceived with ⟨n', -, hend', hbytes⟩ | ⟨hno, -⟩
    swap
    · exact absurd hend (hno n hn)
    rw [hend'.unique hend] at hbytes
    have htoNat : (BitVec.ofNat 64 n).toNat = n := by
      rw [BitVec.toNat_ofNat, Nat.mod_eq_of_lt (by omega)]
    have hne : BitVec.ofNat 64 n ≠ limit := by
      rintro rfl
      omega
    obtain ⟨hresult, hmem⟩ : (U.copyFromUserWithLimit tmp vec src limit mem).result = _ ∧
        (U.copyFromUserWithLimit tmp vec src limit mem).mem = _ := Accessing.bind_of_ok hok
    rw [Option.getD_some, if_neg hne] at hresult hmem
    have hcopy : (U.copyFromUser vec src (BitVec.ofNat 64 n) _).result = .ok () ∧ _ :=
      copyFromUser_of_endsAt (by rwa [htoNat])
        (fun a ha => hvec a (span_mono (by omega) ha)) hsame
    rw [htoNat] at hcopy
    refine .inl ⟨_, hbytes, ?_, ?_⟩
    · rw [hresult, (Accessing.bind_of_ok hcopy.1).1, List.length_map, List.length_range]
      rfl
    · rw [hmem, (Accessing.bind_of_ok hcopy.1).2, List.length_map, List.length_range]
      exact List.map_congr_left fun k hk => (hcopy.2 k (List.mem_range.mp hk)).symm
  · rcases hreceived with ⟨n, hn, hend, -⟩ | ⟨-, hfailed⟩
    · have := hunended.le_of_endsAt hend
      omega
    have hresult : (U.copyFromUserWithLimit tmp vec src limit mem).result = _ :=
      (Accessing.bind_of_ok hok).1
    rw [Option.getD_none, if_pos (by simp)] at hresult
    exact .inr ⟨hfailed, hresult⟩
  · rcases hreceived with ⟨n, hn, hend, -⟩ | ⟨-, hfailed⟩
    · exact absurd hend (hno n hn)
    exact .inr ⟨hfailed, (Accessing.bind_of_error herror).1⟩

end Masika
