import ElfBoot.Proofs.Host.Rig
import ElfBoot.Proofs.Load.Reading

/-!
# What a machine answers

A machine with an open file and an arena answers calls on the file as the file does, and calls on
the memory as the arena does.

* `File.at`, `Machine.Holds` — the file at another position; a machine with that file open.
* `Machine.Holds.seek`, `Machine.Holds.seek_fails`, `Machine.Holds.scratch`, `Machine.Holds.close`
  — calls on the file and the allocator.
* `Machine.Holds.readExact` — an exact read.
* `Machine.Holds.reserve`, `Machine.Holds.write`, `Machine.Holds.zero` — calls on the memory.
-/

set_option autoImplicit false

namespace ElfBoot.Host

open Load (Ensures)

/-- The file at another position. -/
def File.at (position : Nat) (f : File) : File := { f with position := position }

namespace Machine

/-- The machine has a file open, and an arena for a memory of which no call is made to fail. -/
structure Holds (f : File) (a : Arena) (grants : Nat → Bool) (m : Machine) : Prop where
  file : m.file = some f
  arena : m.memory.arena = some a
  failure : m.memory.failure = none
  grants : m.grantsScratch = grants

variable {f : File} {a a' : Arena} {grants : Nat → Bool} {m m' : Machine} {position : Nat}

theorem reply_of_eq {c : Call} {answer : c.Answer} (h : reply c m = some (answer, m')) :
    handler.reply c m = some { answer := answer, state := m' } := by
  simp only [handler, h, Option.map_some]

namespace Holds

theorem with_file (h : m.Holds f a grants) (g : File) :
    { m with file := some g }.Holds g a grants := ⟨rfl, h.arena, h.failure, h.grants⟩

theorem seek (h : m.Holds (f.at position) a grants) {offset : Nat}
    (hseek : f.traits.failSeek ≠ some offset) :
    ∃ m', handler.reply (.seek offset) m = some { answer := .ok (), state := m' } ∧
      m'.Holds (f.at offset) a grants := by
  have hreply : reply (.seek offset) m = some (.ok (), { m with file := some (f.at offset) }) := by
    have hfree : ¬ (f.at position).traits.failSeek = some offset := hseek
    rw [reply, onFile, h.file, Option.map_some, File.seek, if_neg hfree]
    rfl
  exact ⟨_, reply_of_eq hreply, h.with_file _⟩

theorem seek_fails (h : m.Holds (f.at position) a grants) {offset : Nat}
    (hseek : f.traits.failSeek = some offset) :
    ∃ m', handler.reply (.seek offset) m =
      some { answer := .error (.seekFailed offset), state := m' } := by
  have hreply : reply (.seek offset) m = some (.error (.seekFailed offset),
      { m with file := some (f.at position) }) := by
    have hfail : (f.at position).traits.failSeek = some offset := hseek
    rw [reply, onFile, h.file, Option.map_some, File.seek, if_pos hfail]
  exact ⟨_, reply_of_eq hreply⟩

theorem scratch (h : m.Holds f a grants) (len : Nat) :
    handler.reply (.scratch len) m = some { answer := grants len, state := m } := by
  have hreply : reply (.scratch len) m = some (grants len, m) := by
    rw [reply, h.grants]
  exact reply_of_eq hreply

theorem close (h : m.Holds f a grants) :
    ∃ m', handler.reply .close m = some { answer := f.close, state := m' } ∧
      m'.memory.arena = some a := by
  obtain ⟨m', hreply, hmemory⟩ :
      ∃ m', reply .close m = some (f.close, m') ∧ m'.memory = m.memory := by
    rw [reply, closeFile, h.file]
    exact ⟨_, rfl, rfl⟩
  exact ⟨m', reply_of_eq hreply, hmemory ▸ h.arena⟩

/-- Partial reads deliver the bytes at the position; they fail only if reading was made to. -/
theorem delivers (f : File) (a : Arena) (grants : Nat → Bool) :
    handler.Delivers f.content (fun p m => m.Holds (f.at p) a grants)
      (fun _ _ => f.traits.failRead ≠ none) := by
  intro p m n hn h
  have hreply : reply (.read n) m =
      some (((f.at p).read n).1, { m with file := some ((f.at p).read n).2 }) := by
    rw [reply, onFile, h.file, Option.map_some]
  have hspec := (f.at p).read_spec n
  refine ⟨_, reply_of_eq hreply, ?_⟩
  dsimp only
  cases hans : ((f.at p).read n).1 with
  | ok chunk =>
    rw [hans] at hspec
    obtain ⟨htake, hempty, hstate⟩ := hspec
    rw [hstate]
    exact ⟨htake, fun hnil => (hempty hnil).resolve_left (Nat.ne_of_gt hn), h.with_file _⟩
  | error e =>
    rw [hans] at hspec
    intro hnone
    have hfail : f.traits.failRead = some p := hspec
    rw [hnone] at hfail
    cases hfail

/-- **Reading exactly** gives the bytes at the position, or says how many were left. -/
theorem readExact (h : m.Holds (f.at position) a grants) (n : Nat) :
    Ensures handler (Load.readExact n) (fun result m' =>
      match result with
      | .ok bs => bs = (f.content.drop position).take n ∧ bs.length = n ∧
          m'.Holds (f.at (position + n)) a grants
      | .error e => (f.content.length < position + n ∧ 0 < n ∧
            e = .io (.shortRead n (f.content.length - position)) ∧
            ∃ p, m'.Holds (f.at p) a grants) ∨
          ∃ x, e = .io x ∧ f.traits.failRead ≠ none) m :=
  Load.ensures_readExact (delivers f a grants) h n

/-! ### Calls on the memory -/

theorem reserve (h : m.Holds f a grants) {address pages : Nat} {answer : Except LoadError Unit}
    (hop : a.reserve address pages = some (answer, a')) :
    ∃ m', handler.reply (.reserve address pages) m = some { answer := answer, state := m' } ∧
      m'.Holds f a' grants := by
  have hreply : reply (.reserve address pages) m = some (answer, _) :=
    onMemory_of_arena h.arena h.failure .reserve hop
  exact ⟨_, reply_of_eq hreply, h.file, rfl, h.failure, h.grants⟩

theorem write (h : m.Holds f a grants) {address : Nat} {bytes : List UInt8}
    {answer : Except LoadError Unit} (hop : a.write address bytes = some (answer, a')) :
    ∃ m', handler.reply (.write address bytes) m = some { answer := answer, state := m' } ∧
      m'.Holds f a' grants := by
  have hreply : reply (.write address bytes) m = some (answer, _) :=
    onMemory_of_arena h.arena h.failure .write hop
  exact ⟨_, reply_of_eq hreply, h.file, rfl, h.failure, h.grants⟩

theorem zero (h : m.Holds f a grants) {address len : Nat} {answer : Except LoadError Unit}
    (hop : a.zero address len = some (answer, a')) :
    ∃ m', handler.reply (.zero address len) m = some { answer := answer, state := m' } ∧
      m'.Holds f a' grants := by
  have hreply : reply (.zero address len) m = some (answer, _) :=
    onMemory_of_arena h.arena h.failure .zero hop
  exact ⟨_, reply_of_eq hreply, h.file, rfl, h.failure, h.grants⟩

end Holds

end Machine

end ElfBoot.Host
