import ElfBoot.Error
import ElfBoot.Memory.Space
import ElfBoot.Proofs.Memory.Pages

/-!
# Requests to a memory

A memory serves requests one after another: it reserves pages, copies bytes and clears bytes, or
answers with an error and goes on to the next request.

* `Request`, `Served`, `serveAll` — requests, and a memory of any kind that serves them in order.
* `serveAll_of_step`, `serveAll_congr` — from one request to a run of them, for one memory and for
  two.
* `Served.granted` — the pages that were reserved on the way.
* `Owned` — bytes that lie in a single range.
* `AddressSpace.Patched` — a memory in which bytes were put at an address.
-/

set_option autoImplicit false

namespace ElfBoot

/-! ## Serving requests -/

/-- What is asked of a memory. -/
inductive Request where
  | reserve (address pages : Nat)
  | write (address : Nat) (bytes : List UInt8)
  | zero (address len : Nat)
  deriving DecidableEq, Repr

/-- A request with its answer. -/
structure Served where
  request : Request
  answer : Except LoadError Unit

/-- Serves requests in order, whatever the answers are; `none` if one of them breaks the memory. -/
def serveAll {σ : Type} (serve : Request → σ → Option (Except LoadError Unit × σ)) :
    List Request → σ → Option (List Served × σ)
  | [], s => some ([], s)
  | q :: qs, s => do
    let (answer, s) ← serve q s
    let (rest, s) ← serveAll serve qs s
    return (⟨q, answer⟩ :: rest, s)

/-- The pages that were reserved, in the order of the requests. -/
def Served.granted (served : List Served) : List PageRange :=
  served.filterMap fun
    | ⟨.reserve address pages, .ok ()⟩ => some ⟨address, pages⟩
    | _ => none

@[simp] theorem Served.granted_write (address : Nat) (bytes : List UInt8)
    (answer : Except LoadError Unit) : Served.granted [⟨.write address bytes, answer⟩] = [] := rfl

@[simp] theorem Served.granted_zero (address len : Nat) (answer : Except LoadError Unit) :
    Served.granted [⟨.zero address len, answer⟩] = [] := rfl

theorem Served.granted_append (served served' : List Served) :
    Served.granted (served ++ served') = Served.granted served ++ Served.granted served' :=
  List.filterMap_append

section Runs

variable {σ : Type} {serve serve' : Request → σ → Option (Except LoadError Unit × σ)} {s : σ}

/-- **Requests one after another**: what holds of a history and the memory after it, and is kept by
every further request with its answer, holds after all of them, and none of them breaks the
memory. -/
theorem serveAll_of_step {P : List Served → σ → Prop}
    (hstep : ∀ served s q, P served s →
      ∃ answer s', serve q s = some (answer, s') ∧ P (served ++ [⟨q, answer⟩]) s')
    {before : List Served} (hs : P before s) (requests : List Request) :
    ∃ served s', serveAll serve requests s = some (served, s') ∧
      served.map (·.request) = requests ∧ P (before ++ served) s' := by
  induction requests generalizing before s with
  | nil =>
    refine ⟨[], s, rfl, rfl, ?_⟩
    rwa [List.append_nil]
  | cons q requests ih =>
    obtain ⟨answer, s₁, hserve, hs₁⟩ := hstep before s q hs
    obtain ⟨served, s', hrest, hrequests, hs'⟩ := ih hs₁
    refine ⟨⟨q, answer⟩ :: served, s', ?_, ?_, ?_⟩
    · rw [serveAll, hserve, Option.bind_eq_bind, Option.bind_some]
      dsimp only
      rw [hrest]
      rfl
    · rw [List.map_cons, hrequests]
    · rwa [List.append_cons]

/-- Two memories that serve every request alike, as long as something holds that a request keeps,
serve all requests alike. -/
theorem serveAll_congr {P : σ → Prop} (heq : ∀ s q, P s → serve' q s = serve q s)
    (hkeep : ∀ s q answer s', P s → serve q s = some (answer, s') → P s') (hs : P s)
    (requests : List Request) : serveAll serve' requests s = serveAll serve requests s := by
  induction requests generalizing s with
  | nil => rfl
  | cons q requests ih =>
    rw [serveAll, serveAll, heq s q hs]
    cases hserve : serve q s with
    | none => rfl
    | some p =>
      simp only [Option.bind_eq_bind, Option.bind_some]
      rw [ih (hkeep s q p.1 p.2 hs hserve)]

end Runs

/-! ## Bytes in ranges -/

/-- The `len` bytes from `address` on are addresses, and they lie in a single one of some ranges. -/
def Owned (ranges : List PageRange) (address len : Nat) : Prop :=
  address + len < wordLimit ∧ ∃ r ∈ ranges, r.address ≤ address ∧ address + len ≤ r.limit

/-- No byte outside of all ranges is owned. -/
theorem Owned.not_mem {ranges : List PageRange} {address len x : Nat}
    (h : Owned ranges address len) (hx : ∀ r ∈ ranges, ¬ r.Holds x) :
    ¬ (address ≤ x ∧ x < address + len) := by
  obtain ⟨-, r, hr, hlo, hhi⟩ := h
  rintro ⟨hle, hlt⟩
  exact hx r hr ⟨Nat.le_trans hlo hle, Nat.lt_of_lt_of_le hlt hhi⟩

/-- Whether some bytes are owned is found out by adding up their end and searching for a range that
covers them, if the ends of all ranges are addresses. -/
theorem owned_spec {ranges : List PageRange} (h : ∀ r ∈ ranges, r.limit < wordLimit)
    (address len : Nat) :
    ∃ owned, (match Address.add? address len with
        | none => some false
        | some stop => someRange? (·.covers? address stop) ranges) = some owned ∧
      (owned = true ↔ Owned ranges address len) := by
  by_cases hsum : address + len < wordLimit
  · rw [Address.add?_eq_some_iff.2 ⟨hsum, rfl⟩]
    refine ⟨_, someRange?_eq fun r hr => r.covers?_eq (h r hr) address (address + len), ?_⟩
    simp only [List.any_eq_true, decide_eq_true_eq]
    exact ⟨fun hcovered => ⟨hsum, hcovered⟩, fun howned => howned.2⟩
  · have hnone : Address.add? address len = none := if_neg hsum
    rw [hnone]
    exact ⟨false, rfl, fun hno => absurd hno Bool.false_ne_true, fun howned => absurd howned.1 hsum⟩

/-- A memory that makes a change if some bytes are owned, and refuses it otherwise, does one of the
two. -/
theorem exists_answer {σ : Type} {ranges : List PageRange} {address len : Nat}
    {owns : Option Bool} (howns : ∃ owned, owns = some owned ∧
      (owned = true ↔ Owned ranges address len)) (s changed : σ) (e : LoadError) :
    ∃ answer s', (owns.map fun owned =>
        if owned then ((.ok (), changed) : Except LoadError Unit × σ) else (.error e, s)) =
          some (answer, s') ∧
      (Owned ranges address len → answer = .ok () ∧ s' = changed) ∧
      (¬ Owned ranges address len → answer = .error e ∧ s' = s) := by
  obtain ⟨owned, rfl, hiff⟩ := howns
  cases owned with
  | true => exact ⟨_, _, rfl, fun _ => ⟨rfl, rfl⟩, fun hno => absurd (hiff.1 rfl) hno⟩
  | false => exact ⟨_, _, rfl, fun h => absurd (hiff.2 h) Bool.false_ne_true, fun _ => ⟨rfl, rfl⟩⟩

namespace AddressSpace

/-- Bytes were put at an address, and nothing else was changed. -/
structure Patched (m m' : AddressSpace) (address : Nat) (bytes : List UInt8) : Prop where
  inside : ∀ (i : Nat) (h : i < bytes.length), m'.byte (address + i) = bytes[i]
  outside : ∀ x, ¬ (address ≤ x ∧ x < address + bytes.length) → m'.byte x = m.byte x

theorem patched_store (m : AddressSpace) (address : Nat) (bytes : List UInt8) :
    m.Patched (m.store address bytes) address bytes := by
  constructor
  case inside =>
    intro i hi
    rw [byte_store, if_neg (by omega), Nat.add_sub_cancel_left, List.getElem?_eq_getElem hi]
    rfl
  case outside => exact fun x hx => byte_store_of_outside hx

theorem patched_clear (m : AddressSpace) (address len : Nat) :
    m.Patched (m.clear address len) address (List.replicate len 0) := by
  constructor
  case inside =>
    intro i hi
    rw [List.length_replicate] at hi
    rw [byte_clear, if_pos (by omega), List.getElem_replicate]
  case outside =>
    intro x hx
    rw [List.length_replicate] at hx
    exact byte_clear_of_outside hx

end AddressSpace

end ElfBoot
