import ElfBoot.Firmware.Model
import ElfBoot.Proofs.Memory.Requests

/-!
# Memory that the firmware granted

Physical memory is written directly, so a request to change bytes is checked against what the
firmware granted: it is served if its bytes lie within a single grant, and refused otherwise.
Whatever is asked for, and in whatever order, no byte outside the grants ever changes.  The list of
grants is taken to have room for every one of them.

* `Services.AllocatesFixed` — what is asked of the firmware's page allocator.
* `Boot.serve`, `Boot.Lawful` — one request, and what it may do.
* `Boot.exists_serve`, `Boot.exists_serveAll` — one request and a run of them.
* `Boot.serveAll_owned` — a run of requests from a fresh start, and the request that follows it.
-/

set_option autoImplicit false

namespace ElfBoot.Firmware

variable {ν φ α : Type}

/-- The firmware grants pages at the address that was asked for, if at all, and only pages whose end
is an address. -/
structure Services.AllocatesFixed (fw : Services ν φ α) : Prop where
  address_eq : ∀ {address pages base : Nat} {s s' : α},
    fw.allocatePages address pages s = (.ok base, s') → base = address
  limit_lt : ∀ {address pages base : Nat} {s s' : α},
    fw.allocatePages address pages s = (.ok base, s') →
      PageRange.limit ⟨address, pages⟩ < wordLimit

namespace Boot

/-- Serves a request for memory. -/
def serve (fw : Services ν φ α) : Request → Boot ν φ α → Option (Except LoadError Unit × Boot ν φ α)
  | .reserve address pages, b =>
    let p := b.reserve fw address pages
    some (p.1, p.2.1)
  | .write address bytes, b => b.write address bytes
  | .zero address len, b => b.zero address len

/-- Bytes are put in memory exactly if they lie within a single grant; otherwise the request is
refused and memory stays as it is.  The grants stay in any case. -/
structure Changes (b : Boot ν φ α) (address : Nat) (bytes : List UInt8)
    (answer : Except LoadError Unit) (b' : Boot ν φ α) : Prop where
  reserved_eq : b'.reserved = b.reserved
  served : Owned b.reserved address bytes.length →
    answer = .ok () ∧ b.memory.Patched b'.memory address bytes
  refused : ¬ Owned b.reserved address bytes.length →
    answer = .error (.allocation (.outOfRange address bytes.length)) ∧ b'.memory = b.memory

/-- What a request may do, with its answer.  Pages are reserved exactly if the firmware grants
them, which changes no byte; bytes are put in memory, zeros among them, as `Changes` says. -/
def Lawful (fw : Services ν φ α) (b : Boot ν φ α) :
    Request → Except LoadError Unit → Boot ν φ α → Prop
  | .reserve address pages, answer, b' =>
    b'.memory = b.memory ∧
      ((∃ s, fw.allocatePages address pages b.allocator = (.ok address, s) ∧
          answer = .ok () ∧ b'.reserved = b.reserved ++ [⟨address, pages⟩]) ∨
        ∃ status s, fw.allocatePages address pages b.allocator = (.error status, s) ∧
          answer = .error (.allocation (.reserve address pages)) ∧ b'.reserved = b.reserved)
  | .write address bytes, answer, b' => b.Changes address bytes answer b'
  | .zero address len, answer, b' => b.Changes address (List.replicate len 0) answer b'

/-- The ends of all grants are addresses. -/
def Bounded (b : Boot ν φ α) : Prop := ∀ r ∈ b.reserved, r.limit < wordLimit

section Steps

variable {fw : Services ν φ α} {b : Boot ν φ α}

theorem owns?_spec (hb : b.Bounded) (address len : Nat) :
    ∃ owned, b.owns? address len = some owned ∧
      (owned = true ↔ Owned b.reserved address len) := owned_spec hb address len

/-- A change of bytes that is made if they are owned, and refused otherwise. -/
theorem exists_changes (hb : b.Bounded) {address : Nat} {bytes : List UInt8}
    {memory : AddressSpace} (hpatched : b.memory.Patched memory address bytes) :
    ∃ answer b', ((b.owns? address bytes.length).map fun owned =>
        if owned then (.ok (), { b with memory })
        else (.error (.allocation (.outOfRange address bytes.length)), b)) = some (answer, b') ∧
      b.Changes address bytes answer b' := by
  obtain ⟨answer, b', heq, hserved, hrefused⟩ := exists_answer
    (owns?_spec hb address bytes.length) b { b with memory }
    (.allocation (.outOfRange address bytes.length))
  refine ⟨answer, b', heq, ?_⟩
  by_cases hown : Owned b.reserved address bytes.length
  · obtain ⟨rfl, rfl⟩ := hserved hown
    exact ⟨rfl, fun _ => ⟨rfl, hpatched⟩, fun hno => absurd hown hno⟩
  · obtain ⟨rfl, rfl⟩ := hrefused hown
    exact ⟨rfl, fun h => absurd h hown, fun _ => ⟨rfl, rfl⟩⟩

theorem exists_write (hb : b.Bounded) (address : Nat) (bytes : List UInt8) :
    ∃ answer b', b.write address bytes = some (answer, b') ∧ b.Changes address bytes answer b' :=
  exists_changes hb (b.memory.patched_store address bytes)

theorem exists_zero (hb : b.Bounded) (address len : Nat) :
    ∃ answer b', b.zero address len = some (answer, b') ∧
      b.Changes address (List.replicate len 0) answer b' := by
  have hzero := exists_changes hb (b.memory.patched_clear address len)
  rw [List.length_replicate] at hzero
  exact hzero

/-- **One request** is served or refused as the law says. -/
theorem exists_serve (hfw : fw.AllocatesFixed) (hroom : b.AlwaysHasRoom) (hb : b.Bounded)
    (q : Request) :
    ∃ answer b', b.serve fw q = some (answer, b') ∧ b.Lawful fw q answer b' := by
  cases q with
  | reserve address pages =>
    obtain ⟨granted, s, halloc⟩ : ∃ granted s,
        fw.allocatePages address pages b.allocator = (granted, s) := ⟨_, _, rfl⟩
    refine ⟨_, _, rfl, ?_⟩
    unfold Lawful
    rw [reserve_of_room (hroom _), halloc]
    cases granted with
    | ok base =>
      obtain rfl := hfw.address_eq halloc
      exact ⟨rfl, Or.inl ⟨s, halloc, rfl, rfl⟩⟩
    | error status => exact ⟨rfl, Or.inr ⟨status, s, halloc, rfl, rfl⟩⟩
  | write address bytes => exact exists_write hb address bytes
  | zero address len => exact exists_zero hb address len

/-- A change of bytes, made or refused, leaves the room for ranges as it is. -/
theorem AlwaysHasRoom.of_guard {b' : Boot ν φ α} {guard : Option Bool} {memory : AddressSpace}
    {e : LoadError} {answer : Except LoadError Unit} (hroom : b.AlwaysHasRoom)
    (h : (guard.map fun owned => if owned then (.ok (), { b with memory }) else (.error e, b)) =
      some (answer, b')) : b'.AlwaysHasRoom := by
  obtain ⟨owned, -, heq⟩ := Option.map_eq_some_iff.1 h
  cases owned with
  | true =>
    cases heq
    exact hroom
  | false =>
    cases heq
    exact hroom

/-- No request takes the room for further ranges away. -/
theorem AlwaysHasRoom.serve {q : Request} {answer : Except LoadError Unit} {b' : Boot ν φ α}
    (hroom : b.AlwaysHasRoom) (h : b.serve fw q = some (answer, b')) : b'.AlwaysHasRoom := by
  cases q with
  | reserve address pages =>
    rw [Boot.serve, reserve_of_room (hroom _)] at h
    rcases halloc : fw.allocatePages address pages b.allocator with ⟨status | base, s⟩
    · rw [halloc] at h
      cases h
      exact hroom
    · rw [halloc] at h
      cases h
      exact hroom
  | write address bytes => exact hroom.of_guard h
  | zero address len => exact hroom.of_guard h

theorem Lawful.bounded {q : Request} {answer : Except LoadError Unit} {b' : Boot ν φ α}
    (hfw : fw.AllocatesFixed) (h : b.Lawful fw q answer b') (hb : b.Bounded) : b'.Bounded := by
  have hsame : b'.reserved = b.reserved → b'.Bounded := by
    intro heq r hr
    exact hb r (heq ▸ hr)
  cases q with
  | reserve address pages =>
    obtain ⟨-, ⟨s, halloc, -, hreserved⟩ | ⟨_, _, -, -, hreserved⟩⟩ := h
    · intro r hr
      rw [hreserved] at hr
      rcases List.mem_append.1 hr with hold | hnew
      · exact hb r hold
      · obtain rfl := List.mem_singleton.1 hnew
        exact hfw.limit_lt halloc
    · exact hsame hreserved
  | write address bytes => exact hsame (Changes.reserved_eq h)
  | zero address len => exact hsame (Changes.reserved_eq h)

/-- A lawful request adds what was granted to it. -/
theorem Lawful.reserved_eq {q : Request} {answer : Except LoadError Unit} {b' : Boot ν φ α}
    (h : b.Lawful fw q answer b') : b'.reserved = b.reserved ++ Served.granted [⟨q, answer⟩] := by
  cases q with
  | reserve address pages =>
    obtain ⟨-, ⟨_, -, rfl, hreserved⟩ | ⟨_, _, -, rfl, hreserved⟩⟩ := h
    · exact hreserved
    · exact hreserved.trans (List.append_nil _).symm
  | write address bytes =>
    rw [Served.granted_write, List.append_nil]
    exact Changes.reserved_eq h
  | zero address len =>
    rw [Served.granted_zero, List.append_nil]
    exact Changes.reserved_eq h

/-- A lawful request leaves alone what nobody owns. -/
theorem Lawful.byte_eq {q : Request} {answer : Except LoadError Unit} {b' : Boot ν φ α}
    (h : b.Lawful fw q answer b') {x : Nat} (hx : ∀ r ∈ b.reserved, ¬ r.Holds x) :
    b'.memory.byte x = b.memory.byte x := by
  have hchanges : ∀ {address : Nat} {bytes : List UInt8}, b.Changes address bytes answer b' →
      b'.memory.byte x = b.memory.byte x := by
    intro address bytes h
    by_cases hown : Owned b.reserved address bytes.length
    · exact (h.served hown).2.outside x (hown.not_mem hx)
    · rw [(h.refused hown).2]
  cases q with
  | reserve address pages => rw [h.1]
  | write address bytes => exact hchanges h
  | zero address len => exact hchanges h

/-- What a boot has come to after some answers: the grants were added in their order, and what
nobody owns stayed as it was. -/
structure Since (b₀ : Boot ν φ α) (served : List Served) (b : Boot ν φ α) : Prop where
  room : b.AlwaysHasRoom
  bounded : b.Bounded
  reserved_eq : b.reserved = b₀.reserved ++ Served.granted served
  byte_eq : ∀ x, (∀ r ∈ b.reserved, ¬ r.Holds x) → b.memory.byte x = b₀.memory.byte x

theorem Since.lawful {b₀ b' : Boot ν φ α} {served : List Served} {q : Request}
    {answer : Except LoadError Unit} (h : Since b₀ served b) (hfw : fw.AllocatesFixed)
    (hserve : b.serve fw q = some (answer, b')) (hlawful : b.Lawful fw q answer b') :
    Since b₀ (served ++ [⟨q, answer⟩]) b' := by
  have hreserved := hlawful.reserved_eq
  constructor
  case room => exact h.room.serve hserve
  case bounded => exact hlawful.bounded hfw h.bounded
  case reserved_eq => rw [hreserved, h.reserved_eq, Served.granted_append, List.append_assoc]
  case byte_eq =>
    intro x hx
    have hmine : ∀ r ∈ b.reserved, ¬ r.Holds x :=
      fun r hr => hx r (hreserved ▸ List.mem_append_left _ hr)
    exact (hlawful.byte_eq hmine).trans (h.byte_eq x hmine)

/-- **Requests one after another**: all of them are answered. -/
theorem exists_serveAll (hfw : fw.AllocatesFixed) (hroom : b.AlwaysHasRoom) (hb : b.Bounded)
    (requests : List Request) :
    ∃ served b', serveAll (serve fw) requests b = some (served, b') ∧
      served.map (·.request) = requests ∧ Since b served b' := by
  have hstart : Since b [] b := ⟨hroom, hb, (List.append_nil _).symm, fun _ _ => rfl⟩
  refine serveAll_of_step (fun served b₁ q h => ?_) hstart requests
  obtain ⟨answer, b₂, hserve, hlawful⟩ := exists_serve hfw h.room h.bounded q
  exact ⟨answer, b₂, hserve, h.lawful hfw hserve hlawful⟩

end Steps

/-- **Memory is changed only where it was granted**, if the list of grants has room for every one.
Requests of any kind, in any order, are all answered.  The ranges held after them are those the
firmware granted, in the order of the requests, and no byte outside of these has changed.  The
request that comes next, whatever it is, is served or refused as the law says. -/
theorem serveAll_owned {fw : Services ν φ α} (hfw : fw.AllocatesFixed) {b : Boot ν φ α}
    (hroom : b.AlwaysHasRoom) (hb : b.reserved = []) (requests : List Request) :
    ∃ served b', serveAll (serve fw) requests b = some (served, b') ∧
      served.map (·.request) = requests ∧
      b'.reserved = Served.granted served ∧
      (∀ x, (∀ r ∈ b'.reserved, ¬ r.Holds x) → b'.memory.byte x = b.memory.byte x) ∧
      ∀ next, ∃ answer b'', b'.serve fw next = some (answer, b'') ∧
        b'.Lawful fw next answer b'' := by
  have hbounded : b.Bounded := by
    intro r hr
    rw [hb] at hr
    cases hr
  obtain ⟨served, b', hserve, hrequests, hsince⟩ := exists_serveAll hfw hroom hbounded requests
  have hreserved := hsince.reserved_eq
  rw [hb, List.nil_append] at hreserved
  exact ⟨served, b', hserve, hrequests, hreserved, hsince.byte_eq,
    exists_serve hfw hsince.room hsince.bounded⟩

end Boot

/-! ## The small firmware -/

theorem Profile.allocatesFixed (p : Profile) : p.services.AllocatesFixed := by
  have hgrant : ∀ {address pages base : Nat} {s s' : List PageRange},
      p.allocatePages address pages s = (.ok base, s') →
        base = address ∧ p.grants s ⟨address, pages⟩ = true := by
    intro address pages base s s' h
    unfold allocatePages at h
    split at h
    · cases h
    · by_cases hgrants : p.grants s ⟨address, pages⟩ = true
      · rw [if_pos hgrants] at h
        cases h
        exact ⟨rfl, hgrants⟩
      · rw [if_neg hgrants] at h
        cases h
  constructor
  case address_eq => exact fun h => (hgrant h).1
  case limit_lt =>
    intro address pages base s s' h
    have hgrants := (hgrant h).2
    simp only [grants, Bool.and_eq_true, decide_eq_true_eq] at hgrants
    exact Nat.lt_of_le_of_lt hgrants.1.2 (by decide)

/-- Requests of every kind: pages granted and pages refused, bytes within one grant, across two of
them, and outside of both. -/
def sampleRequests : List Request :=
  [.reserve 0x10000000 1, .reserve 0x10001000 1, .reserve 0x10000000 2,
    .write 0x10000FFE [7, 8], .write 0x10000FFF [7, 8], .zero 0x10001001 3, .zero 0xFFFFFFFF 1]

theorem Boot.serveAll_owned_sample :
    ∃ served b', serveAll (serve ({} : Profile).services) sampleRequests Model.fresh =
        some (served, b') ∧
      served.map (·.request) = sampleRequests ∧
      b'.reserved = Served.granted served ∧
      (∀ x, (∀ r ∈ b'.reserved, ¬ r.Holds x) → b'.memory.byte x = Model.fresh.memory.byte x) ∧
      ∀ next, ∃ answer b'', b'.serve ({} : Profile).services next = some (answer, b'') ∧
        b'.Lawful ({} : Profile).services next answer b'' :=
  serveAll_owned (Profile.allocatesFixed {}) (fun _ => rfl) rfl sampleRequests

end ElfBoot.Firmware
