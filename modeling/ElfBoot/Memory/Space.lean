/-!
# Physical address spaces

The bytes of a machine's memory, by address.  Every address holds a byte; who may change which
byte is decided by the memories built on top.

Each operation is described by what it does to a single byte (`byte_store`, `byte_clear`).
-/

set_option autoImplicit false

namespace ElfBoot

/-- A byte at every address. -/
structure AddressSpace where
  byte : Nat → UInt8

namespace AddressSpace

@[ext] theorem ext {m m' : AddressSpace} (h : ∀ x, m.byte x = m'.byte x) : m = m' := by
  cases m; cases m'; simp only [mk.injEq]; exact funext h

/-- The same byte everywhere. -/
def filled (b : UInt8) : AddressSpace := ⟨fun _ => b⟩

/-- Puts `bytes` at `address` and the addresses after it. -/
def store (m : AddressSpace) (address : Nat) (bytes : List UInt8) : AddressSpace :=
  let cells := bytes.toArray
  ⟨fun x => if x < address then m.byte x else cells[x - address]?.getD (m.byte x)⟩

/-- Puts zero at `len` addresses from `address` on. -/
def clear (m : AddressSpace) (address len : Nat) : AddressSpace :=
  ⟨fun x => if address ≤ x ∧ x < address + len then 0 else m.byte x⟩

/-- The `len` bytes from `address` on. -/
def read (m : AddressSpace) (address len : Nat) : List UInt8 :=
  (List.range len).map fun i => m.byte (address + i)

@[simp] theorem byte_filled (b : UInt8) (x : Nat) : (filled b).byte x = b := rfl

theorem byte_store (m : AddressSpace) (address : Nat) (bytes : List UInt8) (x : Nat) :
    (m.store address bytes).byte x =
      if x < address then m.byte x else bytes[x - address]?.getD (m.byte x) := by
  simp [store]

theorem byte_clear (m : AddressSpace) (address len x : Nat) :
    (m.clear address len).byte x =
      if address ≤ x ∧ x < address + len then 0 else m.byte x := rfl

theorem byte_store_of_outside {m : AddressSpace} {address x : Nat} {bytes : List UInt8}
    (h : ¬ (address ≤ x ∧ x < address + bytes.length)) :
    (m.store address bytes).byte x = m.byte x := by
  rw [byte_store]
  by_cases hx : x < address
  · rw [if_pos hx]
  · rw [if_neg hx, List.getElem?_eq_none (by omega), Option.getD_none]

theorem byte_clear_of_outside {m : AddressSpace} {address len x : Nat}
    (h : ¬ (address ≤ x ∧ x < address + len)) : (m.clear address len).byte x = m.byte x := by
  rw [byte_clear, if_neg h]

@[simp] theorem length_read (m : AddressSpace) (address len : Nat) :
    (m.read address len).length = len := by simp [read]

end AddressSpace

end ElfBoot
