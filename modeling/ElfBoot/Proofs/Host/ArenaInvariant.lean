import ElfBoot.Proofs.Host.Isolation
import ElfBoot.Proofs.Load.Checked
import ElfBoot.Proofs.Memory.Requests

/-!
# What requests make of an arena

Loads are tried out on an arena, so what they show rests on what it does with requests of any kind
in any order.  Its pages are reserved inside the window and apart from each other, bytes outside of
all reservations are never touched, and a request that is refused changes nothing.

The bytes of an arena are those of its window, looked up at their distance from its base.  The
checked operations make that lookup before they change anything, and fault if there is no such place
in the window; no request ever gets there.

* `Arena.serve`, `Arena.Lawful` — one request, and what it may do.
* `Arena.Checked.serve`, `Arena.Checked.serve_eq` — the operations that look up the bytes first.
* `Arena.Reflects`, `Arena.Lawful.reflects` — what is true of an arena after some requests, and
  one more of them.
* `Arena.serveAll_reflects` — any requests to a fresh arena, and the request that follows them.
-/

set_option autoImplicit false

namespace ElfBoot

/-- Memory was cleared. -/
def Served.clears : Served → Bool
  | ⟨.zero _ _, .ok ()⟩ => true
  | _ => false

/-- The bytes read from an address on are found among those read from one before it. -/
theorem AddressSpace.take_drop_read (m : AddressSpace) {base size skip len : Nat} (h : skip + len ≤ size) :
    ((m.read base size).drop skip).take len = m.read (base + skip) len := by
  refine List.ext_getElem ?_ fun i hi hi' => ?_
  · simp
    omega
  · simp [read, Nat.add_assoc]

namespace Host.Arena

variable {a a' : Arena} {q : Request} {answer : Except LoadError Unit}

/-- Serves a request for memory. -/
def serve : Request → Arena → Option (Except LoadError Unit × Arena)
  | .reserve address pages, a => a.reserve address pages
  | .write address bytes, a => a.write address bytes
  | .zero address len, a => a.zero address len

/-! ## One request -/

/-- Bytes are put in memory exactly if they lie within a single reservation, and the times that
memory was cleared go up with it; otherwise the request is refused and nothing changes. -/
structure Changes (a : Arena) (address : Nat) (bytes : List UInt8) (clears : Nat)
    (answer : Except LoadError Unit) (a' : Arena) : Prop where
  served : Owned a.reserved address bytes.length →
    answer = .ok () ∧ a.memory.Patched a'.memory address bytes ∧
      a' = { a with memory := a'.memory, zeroCalls := a.zeroCalls + clears }
  refused : ¬ Owned a.reserved address bytes.length →
    answer = .error (.allocation (.outOfRange address bytes.length)) ∧ a' = a

/-- What a request may do, with its answer.  Pages are reserved exactly if there is room for them;
bytes are put in memory, zeros among them, as `Changes` says. -/
def Lawful (a : Arena) : Request → Except LoadError Unit → Arena → Prop
  | .reserve address pages, answer, a' =>
    (a.Room ⟨address, pages⟩ →
      answer = .ok () ∧ a' = { a with reserved := a.reserved ++ [⟨address, pages⟩] }) ∧
    (¬ a.Room ⟨address, pages⟩ →
      answer = .error (.allocation (.reserve address pages)) ∧ a' = a)
  | .write address bytes, answer, a' => a.Changes address bytes 0 answer a'
  | .zero address len, answer, a' => a.Changes address (List.replicate len 0) 1 answer a'

theorem Bounded.owns?_spec (hb : a.Bounded) (address len : Nat) :
    ∃ owned, a.owns? address len = some owned ∧
      (owned = true ↔ Owned a.reserved address len) :=
  owned_spec (fun r hr => hb.ranges r (List.mem_append_left _ hr)) address len

/-- A change of bytes that is made if they are owned, and refused otherwise. -/
theorem exists_changes (hb : a.Bounded) {address : Nat} {bytes : List UInt8}
    {memory : AddressSpace} (hpatched : a.memory.Patched memory address bytes) (clears : Nat) :
    ∃ answer a', ((a.owns? address bytes.length).map fun owned =>
        if owned then (.ok (), { a with memory, zeroCalls := a.zeroCalls + clears })
        else (.error (.allocation (.outOfRange address bytes.length)), a)) = some (answer, a') ∧
      a.Changes address bytes clears answer a' := by
  obtain ⟨answer, a', heq, hserved, hrefused⟩ := exists_answer
    (hb.owns?_spec address bytes.length) a { a with memory, zeroCalls := a.zeroCalls + clears }
    (.allocation (.outOfRange address bytes.length))
  refine ⟨answer, a', heq, fun hown => ?_, hrefused⟩
  obtain ⟨rfl, rfl⟩ := hserved hown
  exact ⟨rfl, hpatched, rfl⟩

/-- **One request** is served or refused as the law says. -/
theorem exists_serve (hb : a.Bounded) (q : Request) :
    ∃ answer a', a.serve q = some (answer, a') ∧ a.Lawful q answer a' := by
  cases q with
  | reserve address pages =>
    by_cases hroom : a.Room ⟨address, pages⟩
    · exact ⟨_, _, reserve_of_room hb hroom, fun _ => ⟨rfl, rfl⟩, fun hno => absurd hroom hno⟩
    · exact ⟨_, _, reserve_of_no_room hb hroom, fun h => absurd h hroom, fun _ => ⟨rfl, rfl⟩⟩
  | write address bytes => exact exists_changes hb (a.memory.patched_store address bytes) 0
  | zero address len =>
    have hzero := exists_changes hb (a.memory.patched_clear address len) 1
    rw [List.length_replicate] at hzero
    exact hzero

/-- A request that is answered with an error changes nothing. -/
theorem Lawful.eq_of_error (h : a.Lawful q answer a') {e : LoadError} (he : answer = .error e) :
    a' = a := by
  have hchanges : ∀ {address clears : Nat} {bytes : List UInt8},
      a.Changes address bytes clears answer a' → a' = a := by
    intro address clears bytes h
    by_cases hown : Owned a.reserved address bytes.length
    · exact absurd ((h.served hown).1.symm.trans he) (by nofun)
    · exact (h.refused hown).2
  cases q with
  | reserve address pages =>
    by_cases hroom : a.Room ⟨address, pages⟩
    · exact absurd ((h.1 hroom).1.symm.trans he) (by nofun)
    · exact (h.2 hroom).2
  | write address bytes => exact hchanges h
  | zero address len => exact hchanges h

/-! ## Looking up the bytes first -/

namespace Checked

/-- The bytes that a request may change, at their place in the window: the place is found by
subtracting its base, and the bytes up to the end must be there. -/
def slot? (a : Arena) (address len : Nat) : Option (Except LoadError (List UInt8)) := do
  if ← a.owns? address len then
    let start ← Address.sub? address a.base
    let stop ← Address.add? start len
    let slot ← slice? a.bytes start stop
    return .ok slot
  else return .error (.allocation (.outOfRange address len))

/-- Copies bytes to a place of their own length. -/
def write (a : Arena) (address : Nat) (bytes : List UInt8) :
    Option (Except LoadError Unit × Arena) := do
  match ← slot? a address bytes.length with
  | .error e => return (.error e, a)
  | .ok slot =>
    if slot.length = bytes.length then
      return (.ok (), { a with memory := a.memory.store address bytes })
    else none

/-- Clears the bytes of a place. -/
def zero (a : Arena) (address len : Nat) : Option (Except LoadError Unit × Arena) := do
  match ← slot? a address len with
  | .error e => return (.error e, a)
  | .ok slot =>
    return (.ok (),
      { a with memory := a.memory.clear address slot.length, zeroCalls := a.zeroCalls + 1 })

/-- Serves a request for memory, looking up the bytes it is about. -/
def serve : Request → Arena → Option (Except LoadError Unit × Arena)
  | .reserve address pages, a => a.reserve address pages
  | .write address bytes, a => write a address bytes
  | .zero address len, a => zero a address len

/-- **The place of owned bytes is in the window**, and it holds what memory holds at their
addresses. -/
theorem slot?_eq (h : a.Tidy) (address len : Nat) :
    slot? a address len = (a.owns? address len).map fun owned =>
      if owned then .ok (a.memory.read address len)
      else .error (.allocation (.outOfRange address len)) := by
  obtain ⟨owned, howns, hiff⟩ := h.bounded.owns?_spec address len
  rw [slot?, howns, Option.bind_eq_bind, Option.bind_some, Option.map_some]
  cases owned with
  | false => rfl
  | true =>
    obtain ⟨hword, r, hr, hlo, hhi⟩ := hiff.1 rfl
    obtain ⟨hbase, hlimit⟩ := h.in_window r hr
    have hle : a.base ≤ address := Nat.le_trans hbase hlo
    have hend : address - a.base + len ≤ a.size := by omega
    have hstart : Address.sub? address a.base = some (address - a.base) := if_pos hle
    have hstop : Address.add? (address - a.base) len = some (address - a.base + len) :=
      if_pos (by omega)
    have hslot : slice? a.bytes (address - a.base) (address - a.base + len) =
        some (a.memory.read address len) := by
      have hbytes : address - a.base + len ≤ a.bytes.length := by
        rwa [bytes, AddressSpace.length_read]
      rw [slice?_eq (Nat.le_add_right _ _) hbytes, Nat.add_sub_cancel_left, bytes,
        a.memory.take_drop_read hend, Nat.add_sub_cancel' hle]
    simp only [if_true, hstart, hstop, hslot, Option.bind_eq_bind, Option.bind_some]
    rfl

/-- **A request finds its bytes** in a tidy arena: looking them up first makes no difference. -/
theorem serve_eq (h : a.Tidy) (q : Request) : serve q a = a.serve q := by
  cases q with
  | reserve address pages => rfl
  | write address bytes =>
    obtain ⟨owned, howns, -⟩ := h.bounded.owns?_spec address bytes.length
    simp only [serve, Arena.serve, write, Arena.write, slot?_eq h, howns]
    cases owned with
    | true => simp
    | false => simp
  | zero address len =>
    obtain ⟨owned, howns, -⟩ := h.bounded.owns?_spec address len
    simp only [serve, Arena.serve, zero, Arena.zero, slot?_eq h, howns]
    cases owned with
    | true => simp
    | false => simp

end Checked

/-! ## Requests one after another -/

/-- A change of bytes leaves alone what nobody owns, and the rest of the arena. -/
theorem Changes.effect {address clears : Nat} {bytes : List UInt8}
    (h : a.Changes address bytes clears answer a') :
    ∃ memory, (∀ x, (∀ r ∈ a.reserved, ¬ r.Holds x) → memory.byte x = a.memory.byte x) ∧
      a' = { a with memory, zeroCalls := a.zeroCalls + if answer.isOk then clears else 0 } := by
  by_cases hown : Owned a.reserved address bytes.length
  · obtain ⟨rfl, hpatched, ha'⟩ := h.served hown
    exact ⟨a'.memory, fun x hx => hpatched.outside x (hown.not_mem hx), ha'⟩
  · obtain ⟨rfl, rfl⟩ := h.refused hown
    exact ⟨a'.memory, fun _ _ => rfl, rfl⟩

/-- A lawful request adds the pages that it is granted, counts if it clears memory, and leaves alone
what nobody owns. -/
theorem Lawful.effect (h : a.Lawful q answer a') :
    ∃ memory, (∀ x, (∀ r ∈ a.reserved, ¬ r.Holds x) → memory.byte x = a.memory.byte x) ∧
      a' = { a with
        memory
        reserved := a.reserved ++ Served.granted [⟨q, answer⟩]
        zeroCalls := a.zeroCalls + [⟨q, answer⟩].countP Served.clears } := by
  cases q with
  | reserve address pages =>
    refine ⟨a.memory, fun _ _ => rfl, ?_⟩
    by_cases hroom : a.Room ⟨address, pages⟩
    · obtain ⟨rfl, rfl⟩ := h.1 hroom
      rfl
    · obtain ⟨rfl, rfl⟩ := h.2 hroom
      simp [Served.granted, Served.clears]
  | write address bytes =>
    obtain ⟨memory, hmemory, rfl⟩ := Changes.effect h
    refine ⟨memory, hmemory, ?_⟩
    simp [Served.clears]
  | zero address len =>
    obtain ⟨memory, hmemory, rfl⟩ := Changes.effect h
    refine ⟨memory, hmemory, ?_⟩
    cases answer with
    | ok _ => simp [Served.clears, Except.isOk, Except.toBool]
    | error e => simp [Served.clears, Except.isOk, Except.toBool]

/-- A lawful request keeps an arena tidy: pages are reserved only if there is room for them. -/
theorem Lawful.tidy (h : a.Lawful q answer a') (ht : a.Tidy) : a'.Tidy := by
  cases q with
  | reserve address pages =>
    by_cases hroom : a.Room ⟨address, pages⟩
    · obtain ⟨-, rfl⟩ := h.1 hroom
      exact ht.reserve hroom
    · rw [(h.2 hroom).2]
      exact ht
  | write address bytes =>
    obtain ⟨memory, -, rfl⟩ := Changes.effect h
    exact ht.with_memory memory _
  | zero address len =>
    obtain ⟨memory, -, rfl⟩ := Changes.effect h
    exact ht.with_memory memory _

theorem Tidy.serve (h : a.Tidy) (hserve : a.serve q = some (answer, a')) : a'.Tidy := by
  obtain ⟨answer', a'', hserve', hlawful⟩ := exists_serve h.bounded q
  cases hserve.symm.trans hserve'
  exact hlawful.tidy h

/-- What some requests have made of a fresh arena: window and occupied ranges are as they were,
what is reserved was granted on the way, in that order, inside the window, apart from each other
and from what is occupied, every other byte is garbage still, and the times that memory was cleared
are counted. -/
structure Reflects (base size : Nat) (occupied : List PageRange) (served : List Served)
    (a : Arena) : Prop where
  base_eq : a.base = base
  size_eq : a.size = size
  occupied_eq : a.occupied = occupied
  reserved_eq : a.reserved = Served.granted served
  tidy : a.Tidy
  byte_eq : ∀ x, (∀ r ∈ a.reserved, ¬ r.Holds x) → a.memory.byte x = garbage
  zeroCalls_eq : a.zeroCalls = served.countP Served.clears

variable {base size : Nat} {occupied : List PageRange} {served : List Served}

/-- A fresh arena beside ranges that belong to someone else. -/
def freshBeside (base size : Nat) (occupied : List PageRange) : Arena :=
  { fresh base size with occupied }

theorem reflects_freshBeside (hwindow : base + size < wordLimit)
    (hoccupied : ∀ q ∈ occupied, q.limit < wordLimit) :
    Reflects base size occupied [] (freshBeside base size occupied) where
  base_eq := rfl
  size_eq := rfl
  occupied_eq := rfl
  reserved_eq := rfl
  tidy := tidy_of_reserved_nil hwindow hoccupied rfl
  byte_eq := fun _ _ => rfl
  zeroCalls_eq := rfl

/-- **One more request.** -/
theorem Lawful.reflects (hlawful : a.Lawful q answer a')
    (h : a.Reflects base size occupied served) :
    a'.Reflects base size occupied (served ++ [⟨q, answer⟩]) := by
  have htidy := hlawful.tidy h.tidy
  obtain ⟨memory, hmemory, rfl⟩ := hlawful.effect
  constructor
  case base_eq => exact h.base_eq
  case size_eq => exact h.size_eq
  case occupied_eq => exact h.occupied_eq
  case reserved_eq => rw [h.reserved_eq, Served.granted_append]
  case tidy => exact htidy
  case byte_eq =>
    intro x hx
    have hmine : ∀ r ∈ a.reserved, ¬ r.Holds x := fun r hr => hx r (List.mem_append_left _ hr)
    exact (hmemory x hmine).trans (h.byte_eq x hmine)
  case zeroCalls_eq => rw [h.zeroCalls_eq, List.countP_append]

/-- **What an arena makes of requests.**  Pages are reserved, bytes copied and cleared, in any order
and whatever is asked for, in a fresh arena whose window and occupied ranges end at addresses.
Every request is answered and finds its bytes, and the arena afterwards is what `Reflects` says.
The request that comes next is served or refused as the law says, and if it is answered with an
error the arena stays as it is. -/
theorem serveAll_reflects (hwindow : base + size < wordLimit)
    (hoccupied : ∀ q ∈ occupied, q.limit < wordLimit) (requests : List Request) :
    ∃ served a,
      serveAll Checked.serve requests (freshBeside base size occupied) = some (served, a) ∧
      serveAll serve requests (freshBeside base size occupied) = some (served, a) ∧
      served.map (·.request) = requests ∧
      a.Reflects base size occupied served ∧
      ∀ next, ∃ answer a', Checked.serve next a = some (answer, a') ∧
        a.serve next = some (answer, a') ∧ a.Lawful next answer a' ∧
        ∀ e, answer = .error e → a' = a := by
  have hstart := reflects_freshBeside hwindow hoccupied
  have hstep : ∀ served (a : Arena) q, a.Reflects base size occupied served →
      ∃ answer a', a.serve q = some (answer, a') ∧
        a'.Reflects base size occupied (served ++ [⟨q, answer⟩]) := by
    intro served a q h
    obtain ⟨answer, a', hserve, hlawful⟩ := exists_serve h.tidy.bounded q
    exact ⟨answer, a', hserve, hlawful.reflects h⟩
  obtain ⟨served, a, hserve, hrequests, hreflects⟩ := serveAll_of_step hstep hstart requests
  have hchecked := serveAll_congr (fun _ q h => Checked.serve_eq h q)
    (fun _ _ _ _ => Tidy.serve) hstart.tidy requests
  refine ⟨served, a, hchecked.trans hserve, hserve, hrequests, hreflects, fun next => ?_⟩
  obtain ⟨answer, a', hnext, hlawful⟩ := exists_serve hreflects.tidy.bounded next
  refine ⟨answer, a', ?_, hnext, hlawful, fun e he => hlawful.eq_of_error he⟩
  rw [Checked.serve_eq hreflects.tidy, hnext]

/-- A range in the middle of a window that ends at the last address. -/
def sampleOccupied : List PageRange := [⟨0xFFFFFFFFFFFFD000, 1⟩]

/-- Pages granted, refused because they are occupied, past the end or without an end, and none at
all between two ranges; then no bytes at the end of a reservation, bytes across its end, a page that
is cleared, and a byte without an end. -/
def sampleRequests : List Request :=
  [.reserve 0xFFFFFFFFFFFFC000 1, .reserve 0xFFFFFFFFFFFFE000 1, .reserve 0xFFFFFFFFFFFFD000 1,
    .reserve 0xFFFFFFFFFFFFF000 1, .reserve 0xFFFFFFFFFFFFF000 0x10000000000000,
    .reserve 0xFFFFFFFFFFFFD000 0, .write 0xFFFFFFFFFFFFD000 [], .write 0xFFFFFFFFFFFFCFFF [7, 8],
    .zero 0xFFFFFFFFFFFFE000 0x1000, .zero 0xFFFFFFFFFFFFFFFF 1]

theorem serveAll_reflects_sample :
    ∃ served a,
      serveAll Checked.serve sampleRequests
          (freshBeside 0xFFFFFFFFFFFFC000 0x3FFF sampleOccupied) = some (served, a) ∧
      serveAll serve sampleRequests
          (freshBeside 0xFFFFFFFFFFFFC000 0x3FFF sampleOccupied) = some (served, a) ∧
      served.map (·.request) = sampleRequests ∧
      a.Reflects 0xFFFFFFFFFFFFC000 0x3FFF sampleOccupied served ∧
      ∀ next, ∃ answer a', Checked.serve next a = some (answer, a') ∧
        a.serve next = some (answer, a') ∧ a.Lawful next answer a' ∧
        ∀ e, answer = .error e → a' = a :=
  serveAll_reflects (by decide) (by decide) sampleRequests

example :
    (serveAll serve sampleRequests (freshBeside 0xFFFFFFFFFFFFC000 0x3FFF sampleOccupied)).map
      (fun p => p.1.map (·.answer.isOk)) =
    some [true, true, false, false, false, true, true, false, true, false] := by
  decide

end Host.Arena

end ElfBoot
