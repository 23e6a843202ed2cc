import Mathlib.Data.List.Forall2
import ElfBoot.Proofs.Host.Arena
import ElfBoot.Proofs.Host.Lockstep
import ElfBoot.Proofs.Load.TwinLoads

/-!
# Placement at other addresses

Placing a table does not depend on where in memory it happens.  If every loadable segment, the
window of the arena and all ranges that are taken are moved by the same number of whole pages, then
everything goes as before, except that the addresses are others.

* `Arena.Shifted` — two arenas that differ by such a move; `Arena.Shifted.room_iff` and the lemmas
  beside it say that they grant and change the same.
* `ProgramHeader.Shifted`, `Table.moved_of_shifted` — program headers, and tables, that do.
* `Rig.twins_shifted` — rigs with such arenas are twins.
* `Rig.placeTable_translation` — the placement of a table.
-/

set_option autoImplicit false

namespace ElfBoot

variable {δ : Nat}

/-- The error with the address of a refused reservation `δ` higher. -/
def LoadError.shift (δ : Nat) : LoadError → LoadError
  | allocation (.reserve address pages) => allocation (.reserve (address + δ) pages)
  | e => e

theorem LoadError.Placeless.shift_eq {e : LoadError} (h : e.Placeless) : e.shift δ = e := by
  unfold shift
  split
  · rename_i address pages
    exact absurd rfl (h address pages)
  · rfl

/-- The range, `δ` addresses higher. -/
def PageRange.shift (δ : Nat) (r : PageRange) : PageRange := { r with address := r.address + δ }

theorem PageRange.limit_shift (r : PageRange) : (r.shift δ).limit = r.limit + δ := by
  show r.address + δ + r.pages * pageSize = r.address + r.pages * pageSize + δ
  omega

/-! ## Tables -/

/-- The same program header, of which the physical address is `δ` higher if it is to be placed. -/
def ProgramHeader.Shifted (δ : Nat) (h h' : ProgramHeader) : Prop :=
  if h.isLoad then
    h'.physicalAddress.toNat = h.physicalAddress.toNat + δ ∧
      h' = { h with physicalAddress := h'.physicalAddress }
  else h' = h

theorem ProgramHeader.Shifted.isLoad_eq {h h' : ProgramHeader} (hs : Shifted δ h h') :
    h'.isLoad = h.isLoad := by
  unfold Shifted at hs
  by_cases hload : h.isLoad = true
  · rw [if_pos hload] at hs
    rw [hs.2]
    rfl
  · rw [if_neg hload] at hs
    rw [hs]

theorem ProgramHeader.Shifted.ofFields_eq {h h' : ProgramHeader} (hs : Shifted δ h h')
    (hload : h.isLoad = true) (index : Nat) :
    Segment.ofFields index h' = (Segment.ofFields index h).shift δ := by
  unfold Shifted at hs
  rw [if_pos hload] at hs
  have haddress : h'.physicalAddress.toNat = h.physicalAddress.toNat + δ := hs.1
  unfold Segment.ofFields Segment.shift
  rw [haddress, hs.2]

theorem map_ofFields_shift {entries entries' : List ProgramHeader}
    (h : List.Forall₂ (ProgramHeader.Shifted δ) entries entries') (n : Nat) :
    (((entries'.zipIdx n).filter fun p => p.1.isLoad).map fun p => Segment.ofFields p.2 p.1) =
      (((entries.zipIdx n).filter fun p => p.1.isLoad).map fun p =>
        Segment.ofFields p.2 p.1).map (Segment.shift δ) := by
  induction h generalizing n with
  | nil => rfl
  | @cons header header' rest rest' hs _ ih =>
    rw [List.zipIdx_cons, List.zipIdx_cons, List.filter_cons, List.filter_cons]
    by_cases hload : header.isLoad = true
    · have hload' := hs.isLoad_eq.trans hload
      rw [if_pos hload, if_pos hload', List.map_cons, List.map_cons, List.map_cons, ih,
        hs.ofFields_eq hload]
    · have hload' : ¬ header'.isLoad = true := fun hyes => hload (hs.isLoad_eq.symm.trans hyes)
      rw [if_neg hload, if_neg hload', ih]

/-- Tables whose entries are shifted have segments that are. -/
theorem Table.moved_of_shifted {t t' : Table}
    (h : List.Forall₂ (ProgramHeader.Shifted δ) t.entries t'.entries)
    (hfits : ∀ header ∈ t'.entries, header.isLoad = true →
      header.physicalAddress.toNat + header.memorySize.toNat < wordLimit) :
    Comparison.Twins.Moved δ t t' := by
  have hsegments : t'.segments = t.segments.map (Segment.shift δ) := by
    rw [segments_eq, segments_eq]
    exact map_ofFields_shift h 0
  constructor
  case empty_iff => rw [← length_entries, ← length_entries, h.length_eq]
  case segments_eq => exact hsegments
  case limit_iff =>
    intro g hg
    have hmem : g.shift δ ∈ t'.segments := by
      rw [hsegments]
      exact List.mem_map.2 ⟨g, hg, rfl⟩
    rw [segments_eq] at hmem
    obtain ⟨⟨header, i⟩, hp, heq⟩ := List.mem_map.1 hmem
    obtain ⟨hentry, hload⟩ := List.mem_filter.1 hp
    have hlt := hfits header (List.fst_mem_of_mem_zipIdx hentry) hload
    have haddress : header.physicalAddress.toNat = g.address + δ := congrArg Segment.address heq
    have hmemory : header.memorySize.toNat = g.memorySize := congrArg Segment.memorySize heq
    rw [haddress, hmemory] at hlt
    omega

namespace Host

/-! ## Arenas -/

namespace Arena

/-- The same arena, `δ` addresses higher. -/
structure Shifted (δ : Nat) (a a' : Arena) : Prop where
  base_eq : a'.base = a.base + δ
  size_eq : a'.size = a.size
  byte_eq : ∀ i < a.size, a'.memory.byte (a'.base + i) = a.memory.byte (a.base + i)
  reserved_eq : a'.reserved = a.reserved.map (PageRange.shift δ)
  occupied_eq : a'.occupied = a.occupied.map (PageRange.shift δ)
  zeroCalls_eq : a'.zeroCalls = a.zeroCalls

namespace Shifted

variable {a a' : Arena}

theorem taken_eq (h : Shifted δ a a') :
    a'.reserved ++ a'.occupied = (a.reserved ++ a.occupied).map (PageRange.shift δ) := by
  rw [h.reserved_eq, h.occupied_eq, List.map_append]

theorem bounded (h : Shifted δ a a') (hb : a'.Bounded) : a.Bounded := by
  constructor
  case window =>
    have hwindow := hb.window
    rw [h.base_eq, h.size_eq] at hwindow
    omega
  case ranges =>
    intro r hr
    have hlimit := hb.ranges (r.shift δ) (h.taken_eq ▸ List.mem_map.2 ⟨r, hr, rfl⟩)
    rw [PageRange.limit_shift] at hlimit
    omega

theorem room_iff (h : Shifted δ a a') (r : PageRange) : a'.Room (r.shift δ) ↔ a.Room r := by
  have haddress : (r.shift δ).address = r.address + δ := rfl
  constructor
  · rintro ⟨hbase, hlimit, hfree⟩
    rw [h.base_eq, haddress] at hbase
    rw [h.base_eq, h.size_eq, PageRange.limit_shift] at hlimit
    refine ⟨by omega, by omega, fun q hq hmeet => ?_⟩
    refine hfree (q.shift δ) (h.taken_eq ▸ List.mem_map.2 ⟨q, hq, rfl⟩) ?_
    rw [PageRange.limit_shift, PageRange.limit_shift]
    show r.address + δ < q.limit + δ ∧ q.address + δ < r.limit + δ
    omega
  · rintro ⟨hbase, hlimit, hfree⟩
    refine ⟨?_, ?_, fun q' hq' hmeet => ?_⟩
    · rw [h.base_eq, haddress]
      omega
    · rw [h.base_eq, h.size_eq, PageRange.limit_shift]
      omega
    · rw [h.taken_eq] at hq'
      obtain ⟨q, hq, rfl⟩ := List.mem_map.1 hq'
      rw [PageRange.limit_shift, PageRange.limit_shift] at hmeet
      have hmeet : r.address + δ < q.limit + δ ∧ q.address + δ < r.limit + δ := hmeet
      exact hfree q hq (by omega)

theorem owns (h : Shifted δ a a') {address len : Nat} (hown : a.Owns address len) :
    a'.Owns (address + δ) len := by
  obtain ⟨r, hr, hlo, hhi⟩ := hown
  refine ⟨r.shift δ, h.reserved_eq ▸ List.mem_map.2 ⟨r, hr, rfl⟩, ?_, ?_⟩
  · show r.address + δ ≤ address + δ
    omega
  · rw [PageRange.limit_shift]
    omega

theorem reserve (h : Shifted δ a a') (r : PageRange) :
    Shifted δ { a with reserved := a.reserved ++ [r] }
      { a' with reserved := a'.reserved ++ [r.shift δ] } := by
  refine ⟨h.base_eq, h.size_eq, h.byte_eq, ?_, h.occupied_eq, h.zeroCalls_eq⟩
  show a'.reserved ++ [r.shift δ] = (a.reserved ++ [r]).map (PageRange.shift δ)
  rw [h.reserved_eq, List.map_append]
  rfl

theorem store (h : Shifted δ a a') (address : Nat) (bytes : List UInt8) :
    Shifted δ { a with memory := a.memory.store address bytes }
      { a' with memory := a'.memory.store (address + δ) bytes } := by
  refine ⟨h.base_eq, h.size_eq, fun i hi => ?_, h.reserved_eq, h.occupied_eq, h.zeroCalls_eq⟩
  have hbyte := h.byte_eq i hi
  show (a'.memory.store (address + δ) bytes).byte (a'.base + i) =
    (a.memory.store address bytes).byte (a.base + i)
  rw [AddressSpace.byte_store, AddressSpace.byte_store, hbyte, h.base_eq]
  by_cases hlt : a.base + i < address
  · rw [if_pos hlt, if_pos (by omega)]
  · have hsame : a.base + δ + i - (address + δ) = a.base + i - address := by omega
    rw [if_neg hlt, if_neg (by omega), hsame]

theorem clear (h : Shifted δ a a') (address len : Nat) :
    Shifted δ { a with memory := a.memory.clear address len, zeroCalls := a.zeroCalls + 1 }
      { a' with
        memory := a'.memory.clear (address + δ) len
        zeroCalls := a'.zeroCalls + 1 } := by
  refine ⟨h.base_eq, h.size_eq, fun i hi => ?_, h.reserved_eq, h.occupied_eq,
    congrArg (· + 1) h.zeroCalls_eq⟩
  have hbyte := h.byte_eq i hi
  show (a'.memory.clear (address + δ) len).byte (a'.base + i) =
    (a.memory.clear address len).byte (a.base + i)
  rw [AddressSpace.byte_clear, AddressSpace.byte_clear, hbyte, h.base_eq]
  by_cases hin : address ≤ a.base + i ∧ a.base + i < address + len
  · rw [if_pos hin, if_pos (by omega)]
  · rw [if_neg hin, if_neg (by omega)]

end Shifted

end Arena

/-! ## Rigs -/

namespace Rig

open Comparison (sameAnswer_of_eq)

/-- Two memories whose arenas differ by a move; the ranges are reserved in the first one. -/
def ShiftedMemory (δ : Nat) (granted : List PageRange) (m m' : Memory) : Prop :=
  ∃ a a', (m.arena = some a ∧ m.failure = none) ∧ (m'.arena = some a' ∧ m'.failure = none) ∧
    a.Shifted δ a' ∧ a'.Bounded ∧ ∀ r ∈ granted, r ∈ a.reserved

theorem ShiftedMemory.weaken {granted : List PageRange} {m m' : Memory}
    (h : ShiftedMemory δ granted m m') : ShiftedMemory δ [] m m' := by
  obtain ⟨a, a', hm, hm', hs, hb', -⟩ := h
  exact ⟨a, a', hm, hm', hs, hb', fun r hr => by cases hr⟩

/-- Two rigs as collaborators that are to do the same at other addresses. -/
def doingTheSameAt (δ : Nat) : Comparison Rig Rig :=
  sideBySide (fun e e' => e' = e.shift δ) (ShiftedMemory δ []) (fun _ _ => False) fun _ => false

variable {content : List UInt8} {granted : List PageRange} {position : Nat} {r r' : Rig}

theorem Lockstep.shifted_reserve
    (h : Lockstep content content (ShiftedMemory δ granted) position r r') (address pages : Nat) :
    (doingTheSameAt δ).Paired (Load.ask (.reserve address pages))
      (Load.ask (.reserve (address + δ) pages))
      ((doingTheSameAt δ).SameAnswer id
        (Lockstep content content (ShiftedMemory δ (granted ++ [⟨address, pages⟩])) position))
      r r' := by
  obtain ⟨a, a', ⟨harena, hfailure⟩, ⟨harena', hfailure'⟩, hs, hb', hgranted⟩ := h.memory
  have hb := hs.bounded hb'
  have hiff : a'.Room ⟨address + δ, pages⟩ ↔ a.Room ⟨address, pages⟩ :=
    hs.room_iff ⟨address, pages⟩
  by_cases hroom : a.Room ⟨address, pages⟩
  · have hroom' := hiff.2 hroom
    have hmeet : meet (r.fate r.calls) (.reserve address pages) r.machine = _ :=
      Machine.onMemory_of_arena harena hfailure .reserve (Arena.reserve_of_room hb hroom)
    have hmeet' : meet (r'.fate r'.calls) (.reserve (address + δ) pages) r'.machine = _ :=
      Machine.onMemory_of_arena harena' hfailure' .reserve (Arena.reserve_of_room hb' hroom')
    refine paired_answer hmeet hmeet' rfl (h.next_memory ?_)
    refine ⟨_, _, ⟨rfl, hfailure⟩, ⟨rfl, hfailure'⟩, hs.reserve ⟨address, pages⟩,
      hb'.reserve hroom', fun q hq => ?_⟩
    rcases List.mem_append.1 hq with hold | hnew
    · exact List.mem_append_left _ (hgranted q hold)
    · exact List.mem_append_right _ hnew
  · have hroom' : ¬ a'.Room ⟨address + δ, pages⟩ := fun hyes => hroom (hiff.1 hyes)
    have hmeet : meet (r.fate r.calls) (.reserve address pages) r.machine = _ :=
      Machine.onMemory_of_arena harena hfailure .reserve (Arena.reserve_of_no_room hb hroom)
    have hmeet' : meet (r'.fate r'.calls) (.reserve (address + δ) pages) r'.machine = _ :=
      Machine.onMemory_of_arena harena' hfailure' .reserve (Arena.reserve_of_no_room hb' hroom')
    refine paired_answer hmeet hmeet' rfl ⟨rfl, ?_⟩
    exact ⟨a, a', ⟨rfl, hfailure⟩, ⟨rfl, hfailure'⟩, hs, hb', fun q hq => by cases hq⟩

/-- A granted range that holds some bytes makes the arena own them. -/
theorem owns_of_granted {a : Arena} (hgranted : ∀ q ∈ granted, q ∈ a.reserved) {q : PageRange}
    {address len : Nat} (hq : q ∈ granted) (hlo : q.address ≤ address)
    (hhi : address + len ≤ q.limit) : a.Owns address len := ⟨q, hgranted q hq, hlo, hhi⟩

theorem Lockstep.shifted_write
    (h : Lockstep content content (ShiftedMemory δ granted) position r r') {q : PageRange}
    {address : Nat} {bytes : List UInt8} (hq : q ∈ granted) (hlo : q.address ≤ address)
    (hhi : address + bytes.length ≤ q.limit) :
    (doingTheSameAt δ).Paired (Load.ask (.write address bytes))
      (Load.ask (.write (address + δ) bytes))
      ((doingTheSameAt δ).SameAnswer id
        (Lockstep content content (ShiftedMemory δ granted) position)) r r' := by
  obtain ⟨a, a', ⟨harena, hfailure⟩, ⟨harena', hfailure'⟩, hs, hb', hgranted⟩ := h.memory
  have hown := owns_of_granted hgranted hq hlo hhi
  have hb := hs.bounded hb'
  have hmeet : meet (r.fate r.calls) (.write address bytes) r.machine = _ :=
    Machine.onMemory_of_arena harena hfailure .write (Arena.write_of_owns hb hown)
  have hmeet' : meet (r'.fate r'.calls) (.write (address + δ) bytes) r'.machine = _ :=
    Machine.onMemory_of_arena harena' hfailure' .write (Arena.write_of_owns hb' (hs.owns hown))
  refine paired_answer hmeet hmeet' rfl (h.next_memory ?_)
  exact ⟨_, _, ⟨rfl, hfailure⟩, ⟨rfl, hfailure'⟩, hs.store address bytes,
    ⟨hb'.window, hb'.ranges⟩, hgranted⟩

theorem Lockstep.shifted_zero
    (h : Lockstep content content (ShiftedMemory δ granted) position r r') {q : PageRange}
    {address len : Nat} (hq : q ∈ granted) (hlo : q.address ≤ address)
    (hhi : address + len ≤ q.limit) :
    (doingTheSameAt δ).Paired (Load.ask (.zero address len)) (Load.ask (.zero (address + δ) len))
      ((doingTheSameAt δ).SameAnswer id
        (Lockstep content content (ShiftedMemory δ granted) position)) r r' := by
  obtain ⟨a, a', ⟨harena, hfailure⟩, ⟨harena', hfailure'⟩, hs, hb', hgranted⟩ := h.memory
  have hown := owns_of_granted hgranted hq hlo hhi
  have hb := hs.bounded hb'
  have hmeet : meet (r.fate r.calls) (.zero address len) r.machine = _ :=
    Machine.onMemory_of_arena harena hfailure .zero (Arena.zero_of_owns hb hown)
  have hmeet' : meet (r'.fate r'.calls) (.zero (address + δ) len) r'.machine = _ :=
    Machine.onMemory_of_arena harena' hfailure' .zero (Arena.zero_of_owns hb' (hs.owns hown))
  refine paired_answer hmeet hmeet' rfl (h.next_memory ?_)
  exact ⟨_, _, ⟨rfl, hfailure⟩, ⟨rfl, hfailure'⟩, hs.clear address len,
    ⟨hb'.window, hb'.ranges⟩, hgranted⟩

/-- **Rigs with shifted arenas** are twins. -/
theorem twins_shifted (δ : Nat) (content : List UInt8) :
    (doingTheSameAt δ).Twins content content δ fun granted =>
      Lockstep content content (ShiftedMemory δ granted) := by
  have herrors : ∀ e : LoadError, e.Placeless → e = e.shift δ := fun e he => he.shift_eq.symm
  have hweaken : ∀ {granted : List PageRange} (m m' : Memory), ShiftedMemory δ granted m m' →
      ShiftedMemory δ [] m m' := fun _ _ hm => hm.weaken
  constructor
  case errors => exact herrors
  case stop => exact fun _ _ _ _ h => hweaken _ _ h.memory
  case read =>
    intro _ p r r' n h
    exact Comparison.paired_readExact (Lockstep.readsAlike herrors hweaken rfl fun _ _ => rfl) h n
  case seek => exact fun _ _ _ _ offset _ h => h.seek herrors hweaken offset
  case scratch => exact fun _ _ _ _ len h => h.scratch len
  case reserve => exact fun _ _ _ _ address pages _ _ h => h.shifted_reserve address pages
  case write => exact fun _ _ _ _ _ _ _ hq hlo hhi h => h.shifted_write hq hlo hhi
  case zero => exact fun _ _ _ _ _ _ _ hq hlo hhi h => h.shifted_zero hq hlo hhi
  case close => exact fun _ _ _ _ h => h.close herrors hweaken

/-! ## Tables at other addresses -/

/-- A machine with an arena for its memory, and the fate of every call. -/
def onArena (m : Machine) (fate : Nat → Fate) (a : Arena) : Rig where
  machine := { m with memory := { arena := some a } }
  fate := fate

/-- **Placing a table at other addresses** ends in the same way: with the same number of segments,
or with the same error, in which the address of a refused reservation is moved as well.  Afterwards
the arenas hold the same bytes, position by position, and the same reservations but for the move. -/
theorem placeTable_translation {m : Machine} {f : File} (hfile : m.file = some f)
    (fate : Nat → Fate) {a a' : Arena} {t t' : Table} (hδ : pageSize ∣ δ)
    (htables : List.Forall₂ (ProgramHeader.Shifted δ) t.entries t'.entries)
    (hfits : ∀ header ∈ t'.entries, header.isLoad = true →
      header.physicalAddress.toNat + header.memorySize.toNat < wordLimit)
    (harenas : a.Shifted δ a') (hbounded : a'.Bounded) :
    let run := (onArena m fate a).run (Load.placeTable t)
    let run' := (onArena m fate a').run (Load.placeTable t')
    ∃ result b b', run.outcome = .done result ∧
      run'.outcome = .done (result.mapError (LoadError.shift δ)) ∧
      run.state.arena? = some b ∧ run'.state.arena? = some b' ∧ b.Shifted δ b' := by
  have hlockstep : Lockstep f.content f.content (ShiftedMemory δ []) f.position
      (onArena m fate a) (onArena m fate a') := by
    refine ⟨rfl, rfl, rfl, ?_, f, hfile, hfile, rfl, rfl⟩
    exact ⟨a, a', ⟨rfl, rfl⟩, ⟨rfl, rfl⟩, harenas, hbounded, fun q hq => by cases hq⟩
  have hpaired := (twins_shifted δ f.content).placeTable hδ (Table.moved_of_shifted htables hfits)
    (fun _ _ => rfl) hlockstep
  rcases hpaired.done (fun _ _ => id) with ⟨n, n', hrun, hrun', hgood⟩ | ⟨e, e', hrun, hrun', hbad⟩
  · obtain ⟨rfl, granted, p, hlast⟩ := hgood
    obtain ⟨b, b', ⟨hb, -⟩, ⟨hb', -⟩, hs, -⟩ := hlast.memory
    exact ⟨.ok n', b, b', hrun, hrun', hb, hb', hs⟩
  · obtain ⟨rfl, b, b', ⟨hb, -⟩, ⟨hb', -⟩, hs, -⟩ := hbad
    exact ⟨.error e, b, b', hrun, hrun', hb, hb', hs⟩

/-- A table of two program headers, of which the second one is placed at an address. -/
def pairTable (address : UInt32) : Table :=
  (Table.ofBlob? .bits32 32
    (RawProgramHeader.encode32 ⟨4, .readExec, 0, 0, 0x1002, 0, 9, 0⟩ ++
      RawProgramHeader.encode32 ⟨1, .readExec, 0x74, 0x8000, address, 2, 5, 0⟩)).getD
    (.empty .bits32)

/-- Two pages, of which the second one belongs to someone else. -/
def pairArena (base : Nat) : Arena := (Arena.fresh base 0x2000).occupy ⟨base + 0x1000, 1⟩

/-- A machine with a file of two bytes that matter. -/
def pairMachine : Machine := { file := some { content := List.replicate 0x74 0 ++ [7, 8] } }

theorem placeTable_translation_sample :
    let fate : Nat → Fate := fun _ => .shorten 1
    let run := (onArena pairMachine fate (pairArena 0x1000)).run
      (Load.placeTable (pairTable 0x1002))
    let run' := (onArena pairMachine fate (pairArena 0x4000)).run
      (Load.placeTable (pairTable 0x4002))
    run.outcome = .done (.ok 1) ∧ ∃ result b b', run.outcome = .done result ∧
      run'.outcome = .done (result.mapError (LoadError.shift 0x3000)) ∧
      run.state.arena? = some b ∧ run'.state.arena? = some b' ∧ b.Shifted 0x3000 b' := by
  have hlow : (pairTable 0x1002).entries = [⟨4, .readExec, 0, 0, 0x1002, 0, 9, 0⟩,
      ⟨1, .readExec, 0x74, 0x8000, 0x1002, 2, 5, 0⟩] := by decide +kernel
  have hhigh : (pairTable 0x4002).entries = [⟨4, .readExec, 0, 0, 0x1002, 0, 9, 0⟩,
      ⟨1, .readExec, 0x74, 0x8000, 0x4002, 2, 5, 0⟩] := by decide +kernel
  have htables : List.Forall₂ (ProgramHeader.Shifted 0x3000) (pairTable 0x1002).entries
      (pairTable 0x4002).entries := by
    rw [hlow, hhigh]
    exact .cons rfl (.cons ⟨by decide, by decide⟩ .nil)
  have hfits : ∀ header ∈ (pairTable 0x4002).entries, header.isLoad = true →
      header.physicalAddress.toNat + header.memorySize.toNat < wordLimit := by
    rw [hhigh]
    decide
  have harenas : (pairArena 0x1000).Shifted 0x3000 (pairArena 0x4000) :=
    ⟨rfl, rfl, fun _ _ => rfl, rfl, rfl, rfl⟩
  have hbounded : (pairArena 0x4000).Bounded := ⟨by decide, by decide⟩
  exact ⟨by decide +kernel,
    placeTable_translation rfl _ (by decide) htables hfits harenas hbounded⟩

end Rig

end Host

end ElfBoot
