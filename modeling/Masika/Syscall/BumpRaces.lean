import Masika.Core.Threads
import Masika.Syscall.Machine

/-!
# `PageAllocator` used by several threads

`allocate_pages` takes a lock, reads `current`, and exchanges it; `set_current` stores `current`
without the lock.  The other modules take calls of `allocate_pages` one at a time.  Here every
atomic access is a turn of its own, and the turns of any number of threads are interleaved in any
order.

* `pageAllocator_linearizable` justifies taking one call at a time: every run is equivalent to the
  sequential calls in the order in which they take effect, a granted request at its exchange and a
  refused one when it reads `current`.  It does not rest on the lock, but on the exchange.
* The lock is what makes one round enough.  As long as nobody calls `set_current`, no exchange fails
  and the retry is never reached (`exchange_never_fails`); with `set_current` it is
  (`storedMeanwhile`).
-/

namespace Masika

open PageAllocator

/-! ## The code -/

/-- A call that has been answered.  `Ok(())` of `set_current` is `none` here, and `Err(text)` is
`some text`. -/
inductive BumpCall where
  | allocatePages (count : U64) (answer : Option U64)
  | setCurrent (newCurrent : U64) (answer : Option String)
  | getCurrent (answer : U64)
deriving DecidableEq, Repr

/-- Where a thread is: outside, or at the next access to one of the four atomics, with what it has
read. -/
inductive BumpPlace where
  | outside
  /-- `lock.compare_exchange_weak(false, true, ..)` -/
  | acquire (count : U64)
  /-- `current.load(..)` -/
  | loadCurrent (count : U64)
  /-- `end_addr.load(..)`, and the comparison with it -/
  | loadEnd (count current : U64)
  /-- `current.compare_exchange(current, new_current, ..)` -/
  | exchange (count current newCurrent : U64)
  /-- `lock.store(false, ..)` before the three ways to go on -/
  | refuse (count : U64)
  | grant (count current : U64)
  | retry (count : U64)
  /-- the loads of `set_current`, and its store -/
  | setStart (newCurrent : U64)
  | setEnd (newCurrent startAddr : U64)
  | setStore (newCurrent : U64)
  /-- the load of `get_current` -/
  | get
deriving DecidableEq, Repr

/-- A call, before it is answered. -/
inductive BumpRequest where
  | allocatePages (count : U64)
  | setCurrent (newCurrent : U64)
  | getCurrent
deriving DecidableEq, Repr

/-- A thread makes a call, or goes on with the one it has made; `spurious` says whether a weak
exchange fails for no reason. -/
inductive BumpChoice where
  | call (request : BumpRequest)
  | goOn (spurious : Bool)
deriving DecidableEq, Repr

/-- `current.saturating_add(total_size)`, with `total_size = count * PAGE_SIZE`. -/
def claimEnd (current count : U64) : ℕ :=
  saturatingAdd current.toNat (wrap (count.toNat * PAGE_SIZE))

/-- The error of `set_current`. -/
def outOfBounds : String := "Address out of bounds"

/-- The condition under which `set_current` fails. -/
def BeyondHeap (startAddr endAddr newCurrent : U64) : Prop :=
  newCurrent < startAddr ∨ newCurrent > endAddr

instance (startAddr endAddr newCurrent : U64) :
    Decidable (BeyondHeap startAddr endAddr newCurrent) :=
  inferInstanceAs (Decidable (_ ∨ _))

/-- What a call does before its first access. -/
def BumpRequest.enter : BumpRequest → BumpPlace × Option BumpCall
  | .allocatePages count =>
    if count = 0#64 then (.outside, some (.allocatePages count none)) else (.acquire count, none)
  | .setCurrent newCurrent => (.setStart newCurrent, none)
  | .getCurrent => (.get, none)

/-- One atomic access. -/
def BumpPlace.access (p : PageAllocator) (spurious : Bool) :
    BumpPlace → Option (PageAllocator × BumpPlace × Option BumpCall)
  | .outside => none
  | .acquire count =>
    if spurious || p.lock then some (p, .acquire count, none)
    else some ({ p with lock := true }, .loadCurrent count, none)
  | .loadCurrent count => some (p, .loadEnd count p.current, none)
  | .loadEnd count current =>
    if claimEnd current count > p.endAddr.toNat then some (p, .refuse count, none)
    else some (p, .exchange count current (BitVec.ofNat 64 (claimEnd current count)), none)
  | .exchange count current newCurrent =>
    if p.current = current then
      some ({ p with current := newCurrent }, .grant count current, none)
    else some (p, .retry count, none)
  | .refuse count => some ({ p with lock := false }, .outside, some (.allocatePages count none))
  | .grant count current =>
    some ({ p with lock := false }, .outside, some (.allocatePages count (some current)))
  | .retry count => some ({ p with lock := false }, .acquire count, none)
  | .setStart newCurrent => some (p, .setEnd newCurrent p.startAddr, none)
  | .setEnd newCurrent startAddr =>
    if BeyondHeap startAddr p.endAddr newCurrent then
      some (p, .outside, some (.setCurrent newCurrent (some outOfBounds)))
    else some (p, .setStore newCurrent, none)
  | .setStore newCurrent =>
    some ({ p with current := newCurrent }, .outside, some (.setCurrent newCurrent none))
  | .get => some (p, .outside, some (.getCurrent p.current))

/-- A turn of a thread. -/
def bumpTurn (p : PageAllocator) (place : BumpPlace) :
    BumpChoice → Option (PageAllocator × BumpPlace × Option BumpCall)
  | .call request =>
    if place = .outside then some (p, request.enter.1, request.enter.2) else none
  | .goOn spurious => place.access p spurious

/-- The calls that take effect in an access. -/
def BumpPlace.effect (p : PageAllocator) : BumpPlace → List BumpCall
  | .loadCurrent count =>
    if claimEnd p.current count > p.endAddr.toNat then [.allocatePages count none] else []
  | .exchange count current _ =>
    if p.current = current then [.allocatePages count (some current)] else []
  | .setEnd newCurrent startAddr =>
    if BeyondHeap startAddr p.endAddr newCurrent then
      [.setCurrent newCurrent (some outOfBounds)]
    else []
  | .setStore newCurrent => [.setCurrent newCurrent none]
  | .get => [.getCurrent p.current]
  | .outside | .acquire _ | .loadEnd _ _ | .refuse _ | .grant _ _ | .retry _ | .setStart _ => []

/-- A call that returns at once takes effect at once. -/
def bumpCommit (p : PageAllocator) (place : BumpPlace) : BumpChoice → List BumpCall
  | .call request => request.enter.2.toList
  | .goOn _ => place.effect p

/-- The allocator as code of threads. -/
def bumpCode : ThreadCode PageAllocator BumpPlace BumpChoice BumpCall := ⟨bumpTurn, bumpCommit⟩

/-! ## One call at a time -/

/-- `set_current` without interruption. -/
def PageAllocator.setCurrent (p : PageAllocator) (newCurrent : U64) :
    Option String × PageAllocator :=
  if BeyondHeap p.startAddr p.endAddr newCurrent then (some outOfBounds, p)
  else (none, { p with current := newCurrent })

/-- A whole call, which must be answered as recorded. -/
def performBump (p : PageAllocator) : BumpCall → Option PageAllocator
  | .allocatePages count answer =>
    (p.allocatePages count.toNat).bind fun result =>
      if result.1 = answer then some result.2 else none
  | .setCurrent newCurrent answer =>
    if (p.setCurrent newCurrent).1 = answer then some (p.setCurrent newCurrent).2 else none
  | .getCurrent answer => if p.current = answer then some p else none

/-- The allocator between calls. -/
def PageAllocator.unlocked (p : PageAllocator) : PageAllocator := { p with lock := false }

/-- What a thread knows about the values it has read. -/
def PlaceOk (p : PageAllocator) : BumpPlace → Prop
  | .acquire count | .loadCurrent count | .loadEnd count _ | .retry count => count ≠ 0#64
  | .exchange count current newCurrent =>
    count ≠ 0#64 ∧ claimEnd current count ≤ p.endAddr.toNat ∧
      newCurrent = BitVec.ofNat 64 (claimEnd current count)
  | .setEnd _ startAddr => startAddr = p.startAddr
  | .setStore newCurrent => ¬ BeyondHeap p.startAddr p.endAddr newCurrent
  | .outside | .refuse _ | .grant _ _ | .setStart _ | .get => True

/-- The call of a thread that has taken effect and has not returned yet. -/
def pendingCall (p : PageAllocator) : BumpPlace → List BumpCall
  | .loadEnd count current =>
    if claimEnd current count > p.endAddr.toNat then [.allocatePages count none] else []
  | .refuse count => [.allocatePages count none]
  | .grant count current => [.allocatePages count (some current)]
  | .outside | .acquire _ | .loadCurrent _ | .exchange _ _ _ | .retry _ | .setStart _
  | .setEnd _ _ | .setStore _ | .get => []

section Turns

variable {p p' : PageAllocator} {place place' : BumpPlace} {spurious : Bool}
  {result : Option BumpCall}

/-- What the access of a thread means to the sequential allocator, to the thread, and to others. -/
structure GoodAccess (p : PageAllocator) (place : BumpPlace) (p' : PageAllocator)
    (place' : BumpPlace) (result : Option BumpCall) : Prop where
  bounds : p'.startAddr = p.startAddr ∧ p'.endAddr = p.endAddr
  performs : run performBump p.unlocked (place.effect p) = some p'.unlocked
  ok : PlaceOk p' place'
  answers : pendingCall p place ++ place.effect p = result.toList ++ pendingCall p' place'

/-- One committed call. -/
lemma run_performBump_single {call : BumpCall} (h : performBump p call = some p') :
    run performBump p [call] = some p' := by
  rw [run, h]
  rfl

/-- The sequential call that a refused request amounts to. -/
lemma performBump_refused {count : U64} (h : claimEnd p.current count > p.endAddr.toNat) :
    performBump p.unlocked (.allocatePages count none) = some p.unlocked := by
  have hcall : p.unlocked.allocatePages count.toNat = some (none, p.unlocked) := by
    rw [allocatePages, claimPages]
    split_ifs with hzero hlock hend
    · rfl
    · exact absurd hlock (by simp [unlocked])
    · rfl
    · exact absurd h hend
  rw [performBump, hcall]
  rfl

/-- The sequential call that a granted request amounts to. -/
lemma performBump_granted {count : U64} (hcount : count ≠ 0#64)
    (h : claimEnd p.current count ≤ p.endAddr.toNat) :
    performBump p.unlocked (.allocatePages count (some p.current))
      = some { p.unlocked with current := BitVec.ofNat 64 (claimEnd p.current count) } := by
  have hne : count.toNat ≠ 0 := fun hzero => hcount (BitVec.eq_of_toNat_eq hzero)
  have hcall : p.unlocked.allocatePages count.toNat = some (some p.current,
      { p.unlocked with current := BitVec.ofNat 64 (claimEnd p.current count) }) := by
    rw [allocatePages, if_neg hne, if_neg (by simp [unlocked]), claimPages]
    exact congrArg some (if_neg (not_lt.mpr h))
  rw [performBump, hcall, Option.bind_some, if_pos rfl]

lemma performBump_setCurrent {newCurrent : U64} {answer : Option String}
    (h : p.setCurrent newCurrent = (answer, p')) :
    performBump p (.setCurrent newCurrent answer) = some p' := by
  rw [performBump, h, if_pos rfl]

lemma access_good (hok : PlaceOk p place)
    (h : place.access p spurious = some (p', place', result)) :
    GoodAccess p place p' place' result := by
  cases place with
  | outside => exact absurd h (by simp [BumpPlace.access])
  | acquire count =>
    rw [BumpPlace.access] at h
    split_ifs at h <;> cases h <;> exact ⟨⟨rfl, rfl⟩, rfl, hok, rfl⟩
  | loadCurrent count =>
    cases h
    refine ⟨⟨rfl, rfl⟩, ?_, hok, ?_⟩
    · rw [BumpPlace.effect]
      split_ifs with hend
      · exact run_performBump_single (performBump_refused hend)
      · rfl
    · rw [BumpPlace.effect, pendingCall, pendingCall]
      rfl
  | loadEnd count current =>
    rw [BumpPlace.access] at h
    split_ifs at h with hend <;> cases h
    · exact ⟨⟨rfl, rfl⟩, rfl, trivial, by rw [pendingCall, if_pos hend]; rfl⟩
    · exact ⟨⟨rfl, rfl⟩, rfl, ⟨hok, not_lt.mp hend, rfl⟩, by rw [pendingCall, if_neg hend]; rfl⟩
  | exchange count current newCurrent =>
    obtain ⟨hcount, hend, rfl⟩ := hok
    rw [BumpPlace.access] at h
    split_ifs at h with hcurrent <;> cases h
    · subst hcurrent
      refine ⟨⟨rfl, rfl⟩, ?_, trivial, ?_⟩
      · rw [BumpPlace.effect, if_pos rfl]
        exact run_performBump_single (performBump_granted hcount hend)
      · rw [BumpPlace.effect, if_pos rfl]
        rfl
    · refine ⟨⟨rfl, rfl⟩, ?_, hcount, ?_⟩
      · rw [BumpPlace.effect, if_neg hcurrent]
        rfl
      · rw [BumpPlace.effect, if_neg hcurrent]
        rfl
  | refuse _ | grant _ _ =>
    cases h
    exact ⟨⟨rfl, rfl⟩, rfl, trivial, rfl⟩
  | retry count =>
    cases h
    exact ⟨⟨rfl, rfl⟩, rfl, hok, rfl⟩
  | setStart newCurrent =>
    cases h
    exact ⟨⟨rfl, rfl⟩, rfl, rfl, rfl⟩
  | setEnd newCurrent startAddr =>
    obtain rfl : startAddr = p.startAddr := hok
    rw [BumpPlace.access] at h
    split_ifs at h with hbeyond <;> cases h
    · refine ⟨⟨rfl, rfl⟩, ?_, trivial, ?_⟩
      · rw [BumpPlace.effect, if_pos hbeyond]
        exact run_performBump_single (performBump_setCurrent (if_pos hbeyond))
      · rw [BumpPlace.effect, if_pos hbeyond]
        rfl
    · refine ⟨⟨rfl, rfl⟩, ?_, hbeyond, ?_⟩
      · rw [BumpPlace.effect, if_neg hbeyond]
        rfl
      · rw [BumpPlace.effect, if_neg hbeyond]
        rfl
  | setStore newCurrent =>
    cases h
    exact ⟨⟨rfl, rfl⟩, run_performBump_single (performBump_setCurrent (if_neg hok)), trivial, rfl⟩
  | get =>
    cases h
    exact ⟨⟨rfl, rfl⟩, run_performBump_single (if_pos rfl), trivial, rfl⟩

/-- Where no bound changes, what a thread knows and what is pending for it stay. -/
lemma others_of_bounds (hbounds : p'.startAddr = p.startAddr ∧ p'.endAddr = p.endAddr)
    (q : BumpPlace) : (PlaceOk p q → PlaceOk p' q) ∧ pendingCall p' q = pendingCall p q := by
  obtain ⟨hstart, hend⟩ := hbounds
  constructor
  · cases q <;> simp only [PlaceOk, hstart, hend] <;> exact id
  · cases q <;> simp only [pendingCall, hend]

lemma enter_ok (request : BumpRequest) (p : PageAllocator) :
    PlaceOk p request.enter.1 ∧ pendingCall p request.enter.1 = [] := by
  cases request with
  | allocatePages count =>
    rw [BumpRequest.enter]
    split_ifs with hzero
    · exact ⟨trivial, rfl⟩
    · exact ⟨hzero, rfl⟩
  | setCurrent newCurrent => exact ⟨trivial, rfl⟩
  | getCurrent => exact ⟨trivial, rfl⟩

/-- A request for no pages is answered before the lock is taken. -/
lemma performs_enter (request : BumpRequest) (p : PageAllocator) :
    run performBump p request.enter.2.toList = some p := by
  cases request with
  | allocatePages count =>
    rw [BumpRequest.enter]
    split_ifs with hzero
    · subst hzero
      exact run_performBump_single rfl
    · rfl
  | setCurrent newCurrent => rfl
  | getCurrent => rfl

/-- A call that is made does not access the allocator. -/
lemma bumpTurn_call {request : BumpRequest}
    (h : bumpTurn p place (.call request) = some (p', place', result)) :
    place = .outside ∧ p' = p ∧ place' = request.enter.1 ∧ result = request.enter.2 := by
  rw [bumpTurn] at h
  split_ifs at h with hplace
  cases h
  exact ⟨hplace, rfl, rfl, rfl⟩

end Turns

/-- **A turn of a thread is a part of one sequential call.** -/
lemma bumpCode_linearizes :
    Linearizes bumpCode performBump PageAllocator.unlocked PlaceOk pendingCall := by
  have hgood : ∀ {p place choice p' place' result}, PlaceOk p place →
      bumpTurn p place choice = some (p', place', result) →
        (p'.startAddr = p.startAddr ∧ p'.endAddr = p.endAddr) ∧
        run performBump p.unlocked (bumpCommit p place choice) = some p'.unlocked ∧
        PlaceOk p' place' ∧
        pendingCall p place ++ bumpCommit p place choice
          = result.toList ++ pendingCall p' place' := by
    intro p place choice p' place' result hok h
    cases choice with
    | goOn spurious =>
      have hacc := access_good hok h
      exact ⟨hacc.bounds, hacc.performs, hacc.ok, hacc.answers⟩
    | call request =>
      obtain ⟨rfl, rfl, rfl, rfl⟩ := bumpTurn_call h
      obtain ⟨hok', hnone⟩ := enter_ok request p'
      refine ⟨⟨rfl, rfl⟩, performs_enter request p'.unlocked, hok', ?_⟩
      rw [hnone, List.append_nil]
      rfl
  refine ⟨fun hok h => (hgood hok h).2.1, fun hok h => (hgood hok h).2.2.1,
    fun hok h => (hgood hok h).2.2.2, fun hok h => others_of_bounds (hgood hok h).1⟩

/-- Threads that have not begun. -/
def bumpStart (ι : Type*) (heapStart heapSize : U64) : Threads ι PageAllocator BumpPlace BumpCall :=
  Threads.start (PageAllocator.new heapStart heapSize) .outside

/-- The calls in the order in which they take effect. -/
def bumpHistory {ι : Type*} [DecidableEq ι] (heapStart heapSize : U64)
    (turns : List (ι × BumpChoice)) : List (ι × BumpCall) :=
  committed (Threads.step bumpCode) (Threads.commit bumpCode) (bumpStart ι heapStart heapSize) turns

section Runs

variable {ι : Type*} [DecidableEq ι] {heapStart heapSize : U64} {turns : List (ι × BumpChoice)}
  {x : Threads ι PageAllocator BumpPlace BumpCall}

/-- **Calls of several threads take effect one at a time.**  However the accesses of the threads are
interleaved, the calls that have taken effect, in the order in which they did, are a run of
sequential calls with the same answers that ends with the same `current`; and what a thread has been
answered so far is what took effect for it, but for a call that has not returned yet. -/
theorem pageAllocator_linearizable
    (h : run (Threads.step bumpCode) (bumpStart ι heapStart heapSize) turns = some x) :
    run performBump (PageAllocator.new heapStart heapSize)
        ((bumpHistory heapStart heapSize turns).map Prod.snd) = some x.shared.unlocked ∧
      ∀ t, committedFor t (bumpHistory heapStart heapSize turns)
        = x.answers t ++ pendingCall x.shared (x.place t) := by
  have hrun := bumpCode_linearizes.run (p := .outside) trivial rfl h
  exact ⟨hrun.sequential, hrun.answers⟩

end Runs

/-- While one thread is about to exchange `current`, the other one stores it. -/
def storedMeanwhile : List (Bool × BumpChoice) :=
  [(true, .call (.allocatePages 1#64)), (true, .goOn false), (true, .goOn false),
    (true, .goOn false), (false, .call (.setCurrent 0x5000#64)), (false, .goOn false),
    (false, .goOn false), (false, .goOn false), (true, .goOn false)]

/-- The exchange fails, and the thread goes round. -/
example : ((run (Threads.step bumpCode) (bumpStart Bool 0x4000#64 0x10000#64) storedMeanwhile).map
    fun x => x.place true) = some (.retry 1#64) := by decide

/-- After the second round the pages begin at the stored address. -/
theorem pageAllocator_linearizable_second_round :
    ∃ x, run (Threads.step bumpCode) (bumpStart Bool 0x4000#64 0x10000#64)
        (storedMeanwhile ++ List.replicate 6 (true, .goOn false)) = some x ∧
      committedFor true (bumpHistory 0x4000#64 0x10000#64
          (storedMeanwhile ++ List.replicate 6 (true, .goOn false)))
        = [.allocatePages 1#64 (some 0x5000#64)] := by
  have hrun : ((run (Threads.step bumpCode) (bumpStart Bool 0x4000#64 0x10000#64)
      (storedMeanwhile ++ List.replicate 6 (true, .goOn false))).map fun x =>
        (x.answers true, x.place true))
          = some ([.allocatePages 1#64 (some 0x5000#64)], .outside) := by decide
  obtain ⟨x, hx, hpair⟩ := Option.map_eq_some_iff.mp hrun
  obtain ⟨hanswers, hplace⟩ := Prod.mk.inj hpair
  refine ⟨x, hx, ?_⟩
  rw [(pageAllocator_linearizable hx).2 true, hanswers, hplace]
  rfl

/-! ## The lock -/

/-- Between taking the lock and giving it back. -/
def BumpPlace.inside : BumpPlace → Prop
  | .loadCurrent _ | .loadEnd _ _ | .exchange _ _ _ | .refuse _ | .grant _ _ | .retry _ => True
  | .outside | .acquire _ | .setStart _ | .setEnd _ _ | .setStore _ | .get => False

/-- A thread that is not inside: what its access does. -/
lemma access_outside {p p' : PageAllocator} {place place' : BumpPlace} {spurious : Bool}
    {result : Option BumpCall} (h : place.access p spurious = some (p', place', result))
    (hout : ¬ place.inside) :
    (place'.inside → p.lock = false ∧ p'.lock = true) ∧ (¬ place'.inside → p'.lock = p.lock) := by
  cases place with
  | outside => exact absurd h (by simp [BumpPlace.access])
  | acquire count =>
    rw [BumpPlace.access] at h
    split_ifs at h with hlock <;> cases h
    · exact ⟨fun hin => hin.elim, fun _ => rfl⟩
    · simp only [Bool.or_eq_true, not_or, Bool.not_eq_true] at hlock
      exact ⟨fun _ => ⟨hlock.2, rfl⟩, fun hin => absurd trivial hin⟩
  | setEnd newCurrent startAddr =>
    rw [BumpPlace.access] at h
    split_ifs at h <;> cases h <;> exact ⟨fun hin => hin.elim, fun _ => rfl⟩
  | setStart _ | setStore _ | get =>
    cases h
    exact ⟨fun hin => hin.elim, fun _ => rfl⟩
  | loadCurrent _ | loadEnd _ _ | exchange _ _ _ | refuse _ | grant _ _ | retry _ =>
    exact absurd trivial hout

/-- A thread that stays inside leaves the lock alone. -/
lemma access_stays {p p' : PageAllocator} {place place' : BumpPlace} {spurious : Bool}
    {result : Option BumpCall} (h : place.access p spurious = some (p', place', result))
    (hin : place.inside) (hin' : place'.inside) : p'.lock = p.lock := by
  cases place with
  | loadCurrent _ =>
    cases h
    rfl
  | loadEnd _ _ | exchange _ _ _ =>
    rw [BumpPlace.access] at h
    split_ifs at h <;> cases h <;> rfl
  | refuse _ | grant _ _ | retry _ =>
    cases h
    exact hin'.elim
  | outside | acquire _ | setStart _ | setEnd _ _ | setStore _ | get => exact hin.elim

lemma enter_outside (request : BumpRequest) : ¬ request.enter.1.inside := by
  cases request with
  | allocatePages count =>
    rw [BumpRequest.enter]
    split_ifs <;> exact id
  | setCurrent newCurrent => exact id
  | getCurrent => exact id

lemma bumpCode_guards : Guards bumpCode (fun _ _ => True) PageAllocator.lock BumpPlace.inside := by
  have hout : ∀ {p place choice p' place' result},
      bumpTurn p place choice = some (p', place', result) → ¬ place.inside →
        (place'.inside → p.lock = false ∧ p'.lock = true) ∧
        (¬ place'.inside → p'.lock = p.lock) := by
    intro p place choice p' place' result h hout
    cases choice with
    | goOn spurious => exact access_outside h hout
    | call request =>
      obtain ⟨-, rfl, rfl, -⟩ := bumpTurn_call h
      exact ⟨fun hin => absurd hin (enter_outside request), fun _ => rfl⟩
  refine ⟨fun _ h => fun hnot => (hout h hnot).1, fun _ h => fun hnot => (hout h hnot).2, ?_⟩
  intro p place choice p' place' result _ h hin hin'
  cases choice with
  | goOn spurious => exact access_stays h hin hin'
  | call request =>
    obtain ⟨-, rfl, -, -⟩ := bumpTurn_call h
    rfl

/-- Nobody has disturbed the thread: `current` is what it has read, and neither it nor the call it
makes is one that disturbs others. -/
def Undisturbed (p : PageAllocator) : BumpPlace → Prop
  | .loadEnd _ current | .exchange _ current _ => current = p.current
  | .retry _ | .setStart _ | .setEnd _ _ | .setStore _ => False
  | .outside | .acquire _ | .loadCurrent _ | .refuse _ | .grant _ _ | .get => True

/-- The turn does not begin a call of `set_current`. -/
def NoSetCurrent (choice : BumpChoice) : Prop :=
  ∀ newCurrent, choice ≠ .call (.setCurrent newCurrent)

section Undisturbed

variable {p p' : PageAllocator} {place place' : BumpPlace} {choice : BumpChoice}
  {result : Option BumpCall}

lemma undisturbed_turn (hplace : Undisturbed p place) (hchoice : NoSetCurrent choice)
    (h : bumpTurn p place choice = some (p', place', result)) : Undisturbed p' place' := by
  cases choice with
  | call request =>
    obtain ⟨-, rfl, rfl, -⟩ := bumpTurn_call h
    cases request with
    | allocatePages count =>
      rw [BumpRequest.enter]
      split_ifs <;> trivial
    | setCurrent newCurrent => exact absurd rfl (hchoice newCurrent)
    | getCurrent => trivial
  | goOn spurious =>
    rw [bumpTurn] at h
    cases place with
    | outside => exact absurd h (by simp [BumpPlace.access])
    | acquire _ =>
      rw [BumpPlace.access] at h
      split_ifs at h <;> cases h <;> trivial
    | loadCurrent _ =>
      cases h
      exact rfl
    | loadEnd _ current =>
      rw [BumpPlace.access] at h
      split_ifs at h <;> cases h
      · trivial
      · exact hplace
    | exchange _ current _ =>
      -- what was read is still there, so the exchange succeeds
      rw [BumpPlace.access, if_pos (Eq.symm hplace)] at h
      cases h
      trivial
    | refuse _ | grant _ _ | get =>
      cases h
      trivial
    | retry _ | setStart _ | setEnd _ _ | setStore _ => exact hplace.elim

/-- Only a thread inside changes `current`. -/
lemma current_of_outside (hplace : Undisturbed p place) (hout : ¬ place.inside)
    (h : bumpTurn p place choice = some (p', place', result)) : p'.current = p.current := by
  cases choice with
  | call request =>
    obtain ⟨-, rfl, -, -⟩ := bumpTurn_call h
    rfl
  | goOn spurious =>
    rw [bumpTurn] at h
    cases place with
    | outside => exact absurd h (by simp [BumpPlace.access])
    | acquire _ =>
      rw [BumpPlace.access] at h
      split_ifs at h <;> cases h <;> rfl
    | get =>
      cases h
      rfl
    | loadCurrent _ | loadEnd _ _ | exchange _ _ _ | refuse _ | grant _ _ | retry _ =>
      exact absurd trivial hout
    | setStart _ | setEnd _ _ | setStore _ => exact hplace.elim

/-- A thread is not disturbed as long as `current` stays, or if it is outside. -/
lemma Undisturbed.mono (hplace : Undisturbed p place)
    (h : p'.current = p.current ∨ ¬ place.inside) : Undisturbed p' place := by
  cases place with
  | loadEnd _ _ | exchange _ _ _ =>
    rcases h with h | h
    · exact Eq.trans hplace h.symm
    · exact absurd trivial h
  | retry _ | setStart _ | setEnd _ _ | setStore _ => exact hplace.elim
  | outside | acquire _ | loadCurrent _ | refuse _ | grant _ _ | get => trivial

end Undisturbed

section Runs

variable {ι : Type*} [DecidableEq ι]

/-- One thread at a time is inside, and no thread is disturbed. -/
structure InTurn (x : Threads ι PageAllocator BumpPlace BumpCall) : Prop where
  excluded : MutuallyExcluded PageAllocator.lock BumpPlace.inside x
  undisturbed : ∀ t, Undisturbed x.shared (x.place t)

lemma InTurn.step (x : Threads ι PageAllocator BumpPlace BumpCall) (turn : ι × BumpChoice)
    (x' : Threads ι PageAllocator BumpPlace BumpCall) (hx : InTurn x)
    (hchoice : NoSetCurrent turn.2) (h : x.step bumpCode turn = some x') : InTurn x' := by
  refine ⟨hx.excluded.step bumpCode_guards trivial h, ?_⟩
  obtain ⟨t, choice⟩ := turn
  obtain ⟨⟨p, place, result⟩, hturn, rfl⟩ := Option.map_eq_some_iff.mp h
  intro u
  by_cases hut : u = t
  · subst hut
    simpa using undisturbed_turn (hx.undisturbed u) hchoice hturn
  · simp only [Function.update_of_ne hut]
    refine (hx.undisturbed u).mono ?_
    by_cases hin : (x.place u).inside
    · -- the other one is inside, so this turn is that of a thread outside
      have hout : ¬ (x.place t).inside := fun hin' => hut ((hx.excluded u hin).2 t hin').symm
      exact .inl (current_of_outside (hx.undisturbed t) hout hturn)
    · exact .inr hin

/-- **One round is enough.**  As long as nobody calls `set_current`, no exchange of `current` fails,
whatever the other threads do: the loop of `allocate_pages` is never gone round. -/
theorem exchange_never_fails {heapStart heapSize : U64} {turns : List (ι × BumpChoice)}
    {x : Threads ι PageAllocator BumpPlace BumpCall} (hset : ∀ turn ∈ turns, NoSetCurrent turn.2)
    (h : run (Threads.step bumpCode) (bumpStart ι heapStart heapSize) turns = some x) (t : ι)
    (count : U64) : x.place t ≠ .retry count := by
  have hstart : InTurn (bumpStart ι heapStart heapSize) := ⟨fun _ hin => hin.elim, fun _ => trivial⟩
  have hx : InTurn x := run_invariant_of_meets InTurn.step hstart
    (meets_of_forall_mem (fun turn hturn _ => hset turn hturn) _) h
  intro hretry
  have hno := hx.undisturbed t
  rw [hretry] at hno
  exact hno

end Runs

/-- Two threads compete for the lock. -/
def competing : List (Bool × BumpChoice) :=
  [(true, .call (.allocatePages 1#64)), (false, .call (.allocatePages 2#64)), (true, .goOn false),
    (false, .goOn false), (true, .goOn false), (false, .goOn true), (true, .goOn false),
    (true, .goOn false), (true, .goOn false), (false, .goOn false), (false, .goOn false)]

/-- Two threads that compete. -/
theorem exchange_never_fails_competing :
    ∃ x, run (Threads.step bumpCode) (bumpStart Bool 0x4000#64 0x10000#64) competing = some x ∧
      ∀ t count, x.place t ≠ .retry count := by
  obtain ⟨x, hx⟩ := Option.isSome_iff_exists.mp (show (run (Threads.step bumpCode)
    (bumpStart Bool 0x4000#64 0x10000#64) competing).isSome = true by decide)
  refine ⟨x, hx, exchange_never_fails (fun turn hturn newCurrent => ?_) hx⟩
  revert turn
  simp [competing]

end Masika
