import ElfBoot.Firmware.Services
import ElfBoot.Proofs.Host.Arena
import ElfBoot.Proofs.Host.Machine
import ElfBoot.Proofs.Load.TwinLoads

/-!
# What stands in for a firmware

A firmware that keeps a file under a name, and that allocates the pages an arena would reserve,
answers a load as a machine with that file and that arena does.  The two need not split their reads
alike.

* `Services.Reads`, `Services.Stores`, `Services.Allocates` — what is asked of the firmware's reads,
  of its files and of its page allocator.
* `StandIn`, `StandIn.Agrees` — a firmware and what stands in for it, and what a boot through the
  one and a machine with the other have in common.
* `StandIn.seek`, `StandIn.readExact`, `StandIn.reserve` and the lemmas beside them — one for each
  call.
* `StandIn.twins` — the firmware and the machine are twins.
-/

set_option autoImplicit false

namespace ElfBoot.Firmware

open Host (Arena File Machine)
open Load (Ensures)

variable {ν φ α : Type}

/-- A read delivers some of the bytes at the position, and none only at the end or past it.  `At p f`
says that the open file `f` stands at position `p`. -/
def Services.Reads (fw : Services ν φ α) (content : List UInt8) (At : Nat → φ → Prop) : Prop :=
  ∀ p f n, 0 < n → At p f → ∃ (chunk : Chunk n) (f' : φ),
    fw.readFile n f = (.ok chunk, f') ∧
      chunk.val = (content.drop p).take chunk.val.length ∧
      (chunk.val = [] → content.length ≤ p) ∧ At (p + chunk.val.length) f'

/-- The firmware keeps some bytes as a regular file under a name. -/
structure Services.Stores (fw : Services ν φ α) (name : List UInt16) (content : List UInt8)
    (volume : ν) (At : Nat → φ → Prop) : Prop where
  opens : ∃ f f' volume', fw.openName name volume = (.ok f, volume') ∧
    fw.intoType f = .ok (.regular f') ∧ At 0 f'
  seek : ∀ p f offset, offset < wordLimit → At p f →
    ∃ f', fw.setPosition offset f = (.ok (), f') ∧
      At (if offset = endOfFile then content.length else offset) f'
  read : fw.Reads content At

/-- The firmware allocates at a fixed address exactly those pages that an arena would reserve, and
answers with the address.  `Tracks reserved s` says of the page allocator that these ranges were
allocated. -/
structure Services.Allocates (fw : Services ν φ α) (a : Arena)
    (Tracks : List PageRange → α → Prop) : Prop where
  grant : ∀ (reserved : List PageRange) s (r : PageRange), 0 < r.pages → pageSize ∣ r.address →
    Tracks reserved s → { a with reserved }.Bounded → { a with reserved }.grants? r = some true →
    ∃ s', fw.allocatePages r.address r.pages s = (.ok r.address, s') ∧ Tracks (reserved ++ [r]) s'
  refuse : ∀ (reserved : List PageRange) s (r : PageRange), 0 < r.pages → pageSize ∣ r.address →
    Tracks reserved s → { a with reserved }.Bounded → { a with reserved }.grants? r = some false →
    ∃ status s', fw.allocatePages r.address r.pages s = (.error status, s') ∧ Tracks reserved s'

theorem Boot.reply_of_eq {c : Call} {answer : c.Answer} {b b' : Boot ν φ α} {notices : List Notice}
    (fw : Services ν φ α) (h : reply fw c b = some (answer, b', notices)) :
    (handler fw).reply c b = some { answer := answer, state := b', notices := notices } := by
  simp only [handler, h, Option.map_some]

/-- The partial reads of the firmware, while nothing else happens to the boot. -/
theorem Services.Reads.delivers {fw : Services ν φ α} {content : List UInt8} {At : Nat → φ → Prop}
    (h : fw.Reads content At) (b : Boot ν φ α) :
    (Boot.handler fw).Delivers content (fun q b' => ∃ f, b' = { b with file := some f } ∧ At q f)
      (fun _ _ => False) := by
  rintro q _ n hn ⟨f, rfl, hat⟩
  obtain ⟨chunk, f', hread, htake, hempty, hat'⟩ := h q f n hn hat
  have hreply : Boot.reply fw (.read n) { b with file := some f } =
      some (.ok chunk, { b with file := some f' }, []) := by
    rw [Boot.reply, Boot.onFile, Option.map_some, Option.map_some, Boot.read,
      if_neg (Nat.ne_of_gt hn), hread]
    rfl
  exact ⟨_, Boot.reply_of_eq fw hreply, htake, hempty, f', rfl, hat'⟩

/-- In the window of an arena, some memory holds the bytes of the arena. -/
def SameWindow (a : Arena) (memory : AddressSpace) : Prop :=
  ∀ i < a.size, memory.byte (a.base + i) = a.memory.byte (a.base + i)

theorem SameWindow.store {a : Arena} {memory : AddressSpace} (h : SameWindow a memory)
    (address : Nat) (bytes : List UInt8) :
    SameWindow { a with memory := a.memory.store address bytes } (memory.store address bytes) := by
  intro i hi
  show (memory.store address bytes).byte (a.base + i) =
    (a.memory.store address bytes).byte (a.base + i)
  rw [AddressSpace.byte_store, AddressSpace.byte_store, h i hi]

theorem SameWindow.clear {a : Arena} {memory : AddressSpace} (h : SameWindow a memory)
    (address len : Nat) :
    SameWindow { a with memory := a.memory.clear address len } (memory.clear address len) := by
  intro i hi
  show (memory.clear address len).byte (a.base + i) = (a.memory.clear address len).byte (a.base + i)
  rw [AddressSpace.byte_clear, AddressSpace.byte_clear, h i hi]

/-- A firmware and what stands in for it on a machine: a file, an arena and an allocator of scratch
buffers. -/
structure StandIn (ν φ α : Type) where
  fw : Services ν φ α
  file : File
  arena : Arena
  grants : Nat → Bool
  /-- Where an open file of the firmware stands. -/
  At : Nat → φ → Prop
  /-- Which ranges the page allocator has allocated. -/
  Tracks : List PageRange → α → Prop

namespace StandIn

/-- The firmware's file and page allocator are what stands in for them, under a name. -/
structure Faithful (S : StandIn ν φ α) (name : List UInt16) (volume : ν) : Prop where
  stores : S.fw.Stores name S.file.content volume S.At
  allocates : S.fw.Allocates S.arena S.Tracks
  faultless : S.file.traits.Faultless
  length_lt : S.file.content.length < wordLimit

/-- The stand-in arena after some reservations and changes. -/
def arenaWith (S : StandIn ν φ α) (reserved : List PageRange) (memory : AddressSpace)
    (zeroCalls : Nat) : Arena := { S.arena with reserved, memory, zeroCalls }

/-- A machine and a boot that agree: the same ranges are reserved, the same bytes are in memory, and
the files stand at the same position, or both of them at the end or past it.  The boot has room for
more ranges. -/
structure AgreeOn (S : StandIn ν φ α) (reserved : List PageRange) (memory : AddressSpace)
    (zeroCalls p q : Nat) (m : Machine) (b : Boot ν φ α) : Prop where
  machine : m.Holds (S.file.at p) (S.arenaWith reserved memory zeroCalls) S.grants
  handle : ∃ f, b.file = some f ∧ S.At q f
  window : SameWindow (S.arenaWith reserved memory zeroCalls) b.memory
  reserved_eq : b.reserved = reserved
  grants_eq : b.grantsScratch = S.grants
  room : b.AlwaysHasRoom
  tracks : S.Tracks reserved b.allocator
  bounded : (S.arenaWith reserved memory zeroCalls).Bounded
  place : q = p ∨ S.file.content.length ≤ p ∧ S.file.content.length ≤ q

/-- A machine and a boot agree, with these ranges granted. -/
def Agrees (S : StandIn ν φ α) (granted : List PageRange) (p : Nat) (m : Machine)
    (b : Boot ν φ α) : Prop :=
  ∃ reserved memory zeroCalls q, S.AgreeOn reserved memory zeroCalls p q m b ∧
    ∀ r ∈ granted, r ∈ reserved

/-- What a machine and a boot have in common at the end: the reservations, and the bytes in the
window. -/
def SameMemory (S : StandIn ν φ α) (m : Machine) (b : Boot ν φ α) : Prop :=
  ∃ reserved memory zeroCalls, m.memory.arena = some (S.arenaWith reserved memory zeroCalls) ∧
    b.reserved = reserved ∧ SameWindow (S.arenaWith reserved memory zeroCalls) b.memory

/-- The machine and the firmware as collaborators that are to do the same. -/
def comparison (S : StandIn ν φ α) : Comparison Machine (Boot ν φ α) where
  left := Machine.handler
  right := Boot.handler S.fw
  errors := Eq
  failed := S.SameMemory
  broken _ _ := False
  counts _ := false

variable {S : StandIn ν φ α} {name : List UInt16} {volume : ν} {granted : List PageRange}
  {position : Nat} {m : Machine} {b : Boot ν φ α}

theorem AgreeOn.sameMemory {reserved : List PageRange} {memory : AddressSpace}
    {zeroCalls p q : Nat} (h : S.AgreeOn reserved memory zeroCalls p q m b) : S.SameMemory m b :=
  ⟨_, _, _, h.machine.arena, h.reserved_eq, h.window⟩

theorem Agrees.sameMemory (h : S.Agrees granted position m b) : S.SameMemory m b := by
  obtain ⟨_, _, _, _, h, -⟩ := h
  exact h.sameMemory

/-- What happens to the files alone keeps the agreement. -/
theorem AgreeOn.with_file {reserved : List PageRange} {memory : AddressSpace}
    {zeroCalls p q p' q' : Nat} {m' : Machine} {f' : φ}
    (h : S.AgreeOn reserved memory zeroCalls p q m b)
    (hm' : m'.Holds (S.file.at p') (S.arenaWith reserved memory zeroCalls) S.grants)
    (hat' : S.At q' f')
    (hplace : q' = p' ∨ S.file.content.length ≤ p' ∧ S.file.content.length ≤ q') :
    S.AgreeOn reserved memory zeroCalls p' q' m' { b with file := some f' } :=
  ⟨hm', ⟨f', rfl, hat'⟩, h.window, h.reserved_eq, h.grants_eq, h.room, h.tracks, h.bounded, hplace⟩

/-! ## Calls on the file and the scratch allocator -/

theorem seek (hS : S.Faithful name volume) (h : S.Agrees granted position m b) {offset : Nat}
    (hoffset : offset < wordLimit) :
    S.comparison.Paired (Load.ask (.seek offset)) (Load.ask (.seek offset))
      (S.comparison.SameAnswer .io (S.Agrees granted offset)) m b := by
  obtain ⟨reserved, memory, zeroCalls, q, h, hgranted⟩ := h
  obtain ⟨f, hf, hat⟩ := h.handle
  have hnever : S.file.traits.failSeek ≠ some offset := by
    rw [hS.faultless.seek]
    exact fun hno => by cases hno
  obtain ⟨m', hreply, hm'⟩ := h.machine.seek hnever
  obtain ⟨f', hset, hat'⟩ := hS.stores.seek q f offset hoffset hat
  have hreply' : Boot.reply S.fw (.seek offset) b =
      some (.ok (), { b with file := some f' }, []) := by
    rw [Boot.reply, Boot.onFile, hf, Option.map_some, Option.map_some, Boot.seek, hset]
    rfl
  refine Comparison.paired_ask (C := S.comparison) hreply (Boot.reply_of_eq S.fw hreply') rfl ?_
  refine ⟨reserved, memory, zeroCalls, if offset = endOfFile then S.file.content.length else offset,
    h.with_file hm' hat' ?_, hgranted⟩
  by_cases hend : offset = endOfFile
  · have hlast := hS.length_lt
    rw [if_pos hend, hend, endOfFile]
    exact Or.inr ⟨by omega, Nat.le_refl _⟩
  · rw [if_neg hend]
    exact Or.inl rfl

/-- An exact read through the firmware gives the bytes at the position of the stand-in, or says how
many of them were left. -/
theorem AgreeOn.boot_readExact (hS : S.Faithful name volume) {reserved : List PageRange}
    {memory : AddressSpace} {zeroCalls p q : Nat} (h : S.AgreeOn reserved memory zeroCalls p q m b)
    (n : Nat) :
    Ensures (Boot.handler S.fw) (Load.readExact n) (fun result b' =>
      match result with
      | .ok bs => bs = (S.file.content.drop p).take n ∧ bs.length = n ∧
          ∃ f, b' = { b with file := some f } ∧ S.At (q + n) f
      | .error e => (S.file.content.length < p + n ∧ 0 < n) ∧
          e = .io (.shortRead n (S.file.content.length - p)) ∧
            ∃ f, b' = { b with file := some f }) b := by
  obtain ⟨f, hf, hat⟩ := h.handle
  have hself : b = { b with file := some f } := by
    rw [← hf]
  -- at the end of the file and past it, the same bytes are left, which are none
  have hdrop : S.file.content.drop q = S.file.content.drop p := by
    rcases h.place with rfl | ⟨hp, hq⟩
    · rfl
    · rw [List.drop_eq_nil_of_le hp, List.drop_eq_nil_of_le hq]
  have hleft : S.file.content.length - q = S.file.content.length - p := by
    rw [← List.length_drop, hdrop, List.length_drop]
  have hread := Load.ensures_readExact (s := b) (hS.stores.read.delivers b) ⟨f, hself, hat⟩ n
  rw [hdrop, hleft] at hread
  refine hread.mono fun result b' hresult => ?_
  cases result with
  | ok bs => exact hresult
  | error e =>
    rcases hresult with ⟨hshort, hpos, he, q', f', hb', -⟩ | ⟨_, _, hno⟩
    · exact ⟨⟨by omega, hpos⟩, he, f', hb'⟩
    · exact hno.elim

/-- **Exact reads** agree, however either side splits them. -/
theorem readExact (hS : S.Faithful name volume) (h : S.Agrees granted position m b) (n : Nat) :
    S.comparison.Paired (Load.readExact n) (Load.readExact n) (fun bs s bs' t =>
      bs = (S.file.content.drop position).take n ∧ bs' = (S.file.content.drop position).take n ∧
        bs.length = n ∧ bs'.length = n ∧ S.Agrees granted (position + n) s t) m b := by
  obtain ⟨reserved, memory, zeroCalls, q, h, hgranted⟩ := h
  refine Comparison.paired_of_ensures (C := S.comparison) (h.machine.readExact n)
    (h.boot_readExact hS n) (fun _ => rfl) fun x m' y b' hx hy => ?_
  cases x with
  | ok bs =>
    obtain ⟨rfl, hlength, hm'⟩ := hx
    have hall := hlength
    rw [List.length_take, List.length_drop] at hall
    cases y with
    | ok bs' =>
      obtain ⟨rfl, hlength', f', rfl, hat'⟩ := hy
      refine ⟨rfl, rfl, hlength, hlength, reserved, memory, zeroCalls, q + n, ?_, hgranted⟩
      refine h.with_file hm' hat' ?_
      rcases h.place with rfl | ⟨hp, hq⟩
      · exact Or.inl rfl
      · exact Or.inr ⟨by omega, by omega⟩
    | error e' => exact absurd hy.1 (by omega)
  | error e =>
    rcases hx with ⟨hshort, hpos, rfl, p, hm'⟩ | ⟨_, _, hno⟩
    · cases y with
      | ok bs' =>
        obtain ⟨rfl, hlength', -⟩ := hy
        rw [List.length_take, List.length_drop] at hlength'
        omega
      | error e' =>
        obtain ⟨-, rfl, f', rfl⟩ := hy
        exact ⟨rfl, _, _, _, hm'.arena, h.reserved_eq, h.window⟩
    · exact absurd hS.faultless.read hno

theorem scratch (h : S.Agrees granted position m b) (len : Nat) :
    S.comparison.Paired (Load.ask (.scratch len)) (Load.ask (.scratch len))
      (fun x s y t => y = x ∧ S.Agrees granted position s t) m b := by
  obtain ⟨reserved, memory, zeroCalls, q, h, hgranted⟩ := h
  have hreply' : Boot.reply S.fw (.scratch len) b = some (S.grants len, b, []) := by
    rw [Boot.reply, h.grants_eq]
  exact Comparison.paired_ask (C := S.comparison) (h.machine.scratch len)
    (Boot.reply_of_eq S.fw hreply') rfl ⟨rfl, reserved, memory, zeroCalls, q, h, hgranted⟩

theorem close (hS : S.Faithful name volume) (h : S.Agrees granted position m b) :
    S.comparison.Paired (Load.ask .close) (Load.ask .close)
      (S.comparison.SameAnswer .io S.SameMemory) m b := by
  obtain ⟨reserved, memory, zeroCalls, q, h, hgranted⟩ := h
  obtain ⟨f, hf, hat⟩ := h.handle
  obtain ⟨m', hreply, harena⟩ := h.machine.close
  have hok : (S.file.at position).close = .ok () := by
    have hnever : ¬ (S.file.at position).traits.failClose = true := by
      rw [show (S.file.at position).traits.failClose = false from hS.faultless.close]
      exact Bool.false_ne_true
    rw [File.close, if_neg hnever]
  rw [hok] at hreply
  have hreply' : Boot.reply S.fw .close b = some (.ok (), { b with file := none }, []) := by
    rw [Boot.reply, hf, Option.map_some]
  exact Comparison.paired_ask (C := S.comparison) hreply (Boot.reply_of_eq S.fw hreply') rfl
    ⟨_, _, _, harena, h.reserved_eq, h.window⟩

/-! ## Calls on the memory -/

theorem reserve (hS : S.Faithful name volume) (h : S.Agrees granted position m b)
    {address pages : Nat} (hpages : 0 < pages) (haligned : pageSize ∣ address) :
    S.comparison.Paired (Load.ask (.reserve address pages)) (Load.ask (.reserve address pages))
      (S.comparison.SameAnswer id (S.Agrees (granted ++ [⟨address, pages⟩]) position)) m b := by
  obtain ⟨reserved, memory, zeroCalls, q, h, hgranted⟩ := h
  have hbounded : { S.arena with reserved := reserved }.Bounded :=
    ⟨h.bounded.window, h.bounded.ranges⟩
  obtain ⟨answer, hgrants, hroom⟩ := Arena.grants?_spec h.bounded ⟨address, pages⟩
  cases answer with
  | true =>
    have hroom := hroom.1 rfl
    obtain ⟨m', hreply, hm'⟩ := h.machine.reserve (Arena.reserve_of_room h.bounded hroom)
    obtain ⟨s', halloc, htracks⟩ := hS.allocates.grant reserved b.allocator ⟨address, pages⟩
      hpages haligned h.tracks hbounded hgrants
    have hreply' : Boot.reply S.fw (.reserve address pages) b =
        some (.ok (), { b with
          allocator := s'
          reserved := b.reserved ++ [⟨address, pages⟩] }, []) := by
      rw [Boot.reply, Boot.reserve_of_room (h.room _), halloc]
    refine Comparison.paired_ask (C := S.comparison) hreply (Boot.reply_of_eq S.fw hreply') rfl ?_
    refine ⟨reserved ++ [⟨address, pages⟩], memory, zeroCalls, q, ?_, fun r hr => ?_⟩
    · exact ⟨hm', h.handle, h.window, congrArg (· ++ _) h.reserved_eq, h.grants_eq, h.room,
        htracks, h.bounded.reserve hroom, h.place⟩
    · rcases List.mem_append.1 hr with hold | hnew
      · exact List.mem_append_left _ (hgranted r hold)
      · exact List.mem_append_right _ hnew
  | false =>
    have hroom := fun hyes => Bool.false_ne_true (hroom.2 hyes)
    obtain ⟨m', hreply, hm'⟩ := h.machine.reserve (Arena.reserve_of_no_room h.bounded hroom)
    obtain ⟨status, s', halloc, htracks⟩ := hS.allocates.refuse reserved b.allocator
      ⟨address, pages⟩ hpages haligned h.tracks hbounded hgrants
    have hreply' : Boot.reply S.fw (.reserve address pages) b =
        some (.error (.allocation (.reserve address pages)), { b with allocator := s' },
          [.allocationRefused address pages status]) := by
      rw [Boot.reply, Boot.reserve_of_room (h.room _), halloc]
    exact Comparison.paired_ask (C := S.comparison) hreply (Boot.reply_of_eq S.fw hreply') rfl
      ⟨rfl, _, _, _, hm'.arena, h.reserved_eq, h.window⟩

theorem owns?_eq {reserved : List PageRange} {memory : AddressSpace} {zeroCalls p q : Nat}
    (h : S.AgreeOn reserved memory zeroCalls p q m b) (address len : Nat) :
    b.owns? address len = (S.arenaWith reserved memory zeroCalls).owns? address len := by
  unfold Boot.owns? Arena.owns?
  rw [h.reserved_eq]
  rfl

theorem write (h : S.Agrees granted position m b) {r : PageRange} {address : Nat}
    {bytes : List UInt8} (hr : r ∈ granted) (hlo : r.address ≤ address)
    (hhi : address + bytes.length ≤ r.limit) :
    S.comparison.Paired (Load.ask (.write address bytes)) (Load.ask (.write address bytes))
      (S.comparison.SameAnswer id (S.Agrees granted position)) m b := by
  obtain ⟨reserved, memory, zeroCalls, q, h, hgranted⟩ := h
  have hown : (S.arenaWith reserved memory zeroCalls).Owns address bytes.length :=
    ⟨r, hgranted r hr, hlo, hhi⟩
  obtain ⟨m', hreply, hm'⟩ := h.machine.write (Arena.write_of_owns h.bounded hown)
  have hreply' : Boot.reply S.fw (.write address bytes) b =
      some (.ok (), { b with memory := b.memory.store address bytes }, []) := by
    rw [Boot.reply, Boot.write, owns?_eq h, Arena.owns?_of_owns h.bounded hown]
    rfl
  refine Comparison.paired_ask (C := S.comparison) hreply (Boot.reply_of_eq S.fw hreply') rfl ?_
  refine ⟨reserved, memory.store address bytes, zeroCalls, q, ?_, hgranted⟩
  exact ⟨hm', h.handle, h.window.store address bytes, h.reserved_eq, h.grants_eq, h.room, h.tracks,
    ⟨h.bounded.window, h.bounded.ranges⟩, h.place⟩

theorem zero (h : S.Agrees granted position m b) {r : PageRange} {address len : Nat}
    (hr : r ∈ granted) (hlo : r.address ≤ address) (hhi : address + len ≤ r.limit) :
    S.comparison.Paired (Load.ask (.zero address len)) (Load.ask (.zero address len))
      (S.comparison.SameAnswer id (S.Agrees granted position)) m b := by
  obtain ⟨reserved, memory, zeroCalls, q, h, hgranted⟩ := h
  have hown : (S.arenaWith reserved memory zeroCalls).Owns address len :=
    ⟨r, hgranted r hr, hlo, hhi⟩
  obtain ⟨m', hreply, hm'⟩ := h.machine.zero (Arena.zero_of_owns h.bounded hown)
  have hreply' : Boot.reply S.fw (.zero address len) b =
      some (.ok (), { b with memory := b.memory.clear address len }, []) := by
    rw [Boot.reply, Boot.zero, owns?_eq h, Arena.owns?_of_owns h.bounded hown]
    rfl
  refine Comparison.paired_ask (C := S.comparison) hreply (Boot.reply_of_eq S.fw hreply') rfl ?_
  refine ⟨reserved, memory.clear address len, zeroCalls + 1, q, ?_, hgranted⟩
  exact ⟨hm', h.handle, h.window.clear address len, h.reserved_eq, h.grants_eq, h.room, h.tracks,
    ⟨h.bounded.window, h.bounded.ranges⟩, h.place⟩

/-- **The firmware and the machine** are twins. -/
theorem twins (hS : S.Faithful name volume) :
    S.comparison.Twins S.file.content S.file.content 0 S.Agrees := by
  constructor
  case errors => exact fun e _ => rfl
  case stop => exact fun _ _ _ _ h => h.sameMemory
  case read => exact fun _ _ _ _ n h => readExact hS h n
  case seek => exact fun _ _ _ _ _ hoffset h => seek hS h hoffset
  case scratch => exact fun _ _ _ _ len h => scratch h len
  case reserve => exact fun _ _ _ _ _ _ hpages haligned h => reserve hS h hpages haligned
  case write => exact fun _ _ _ _ _ _ _ hr hlo hhi h => write h hr hlo hhi
  case zero => exact fun _ _ _ _ _ _ _ hr hlo hhi h => zero h hr hlo hhi
  case close => exact fun _ _ _ _ h => close hS h

end StandIn

end ElfBoot.Firmware
