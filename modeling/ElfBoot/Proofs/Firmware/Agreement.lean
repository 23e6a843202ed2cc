import ElfBoot.Firmware.Model
import ElfBoot.Image.Builder
import ElfBoot.Proofs.Firmware.StandIn

/-!
# Loading through the firmware is loading on a machine

A load through the firmware ends as it does on a machine that has the same file and, for its memory,
an arena with the same window: with the same image or the same error, the same reservations, and the
same bytes in the window.  The arena always has room for one more reservation, and the list of
ranges is taken to have it as well.

* `StandIn.Beside`, `StandIn.openImage` — a machine and a boot before a load, and how both open the
  image.
* `Profile.stores`, `Profile.allocates` — the small firmware keeps its files and allocates its
  memory as a stand-in does.
* `StandIn.image_agreement` — the load of an image.
-/

set_option autoImplicit false

namespace ElfBoot.Firmware

open Host (Arena File Machine Volume)

/-! ## The small firmware -/

namespace Profile

/-- The firmware is not told to fail anywhere, and a read can deliver something. -/
structure Healthy (p : Profile) : Prop where
  opening : failure? p.openStatus = none
  telling : failure? p.tellStart = none
  seeking : p.failSeek = none
  reading : p.failRead = none
  chunk : p.chunk ≠ some 0
  allocating : failure? p.allocate = none

/-- An open file stands at a position. -/
structure At (content : List UInt8) (position : Nat) (h : Handle) : Prop where
  content_eq : h.content = content
  position_eq : h.position = position
  regular : h.isDirectory = false

variable {p : Profile} {name : List UInt16} {content : List UInt8}

theorem reach_pos (hp : p.Healthy) {n : Nat} (hn : 0 < n) : 0 < p.reach n := by
  have hchunk := hp.chunk
  unfold reach
  cases hc : p.chunk with
  | none => exact hn
  | some c =>
    have hc0 : c ≠ 0 := fun h => hchunk (h ▸ hc)
    show 0 < min n c
    omega

/-- The small firmware keeps its files. -/
theorem stores (hp : p.Healthy) (hfile : p.files.lookup (nameText name) = some content) :
    p.services.Stores name content () (At content) := by
  constructor
  case opens =>
    refine ⟨{ content }, { content }, (), ?_, ?_, rfl, rfl, rfl⟩
    · show (p.openName name, ()) = _
      rw [openName, hp.opening, hfile]
    · show p.intoType { content } = _
      rw [intoType, getPosition, if_neg Bool.false_ne_true, if_pos rfl, hp.telling]
  case seek =>
    rintro q h offset - ⟨rfl, rfl, hregular⟩
    let position := if offset = endOfFile then h.content.length else offset
    refine ⟨{ h with position }, ?_, rfl, rfl, hregular⟩
    show p.setPosition offset h = _
    have hnever : ¬ p.failSeek = some offset := by
      rw [hp.seeking]
      exact fun hno => by cases hno
    rw [setPosition, if_neg hnever]
  case read =>
    rintro q h n hn ⟨rfl, rfl, hregular⟩
    let chunk := p.available n h
    let position := h.position + chunk.val.length
    refine ⟨chunk, { h with position }, ?_, ?_, ?_, rfl, rfl, hregular⟩
    · show p.readFile n h = _
      rw [readFile, hp.reading]
    · show (h.content.drop h.position).take (p.reach n) =
        (h.content.drop h.position).take ((h.content.drop h.position).take (p.reach n)).length
      rw [List.length_take, ← List.take_eq_take_min]
    · intro hnil
      have hreach := reach_pos hp hn
      have hnil : (h.content.drop h.position).take (p.reach n) = [] := hnil
      rcases List.take_eq_nil_iff.1 hnil with hzero | hdrop
      · omega
      · exact List.drop_eq_nil_iff.1 hdrop

/-- The memory of the small firmware as an arena. -/
def window (p : Profile) : Arena where
  base := ramBase
  size := ramLimit - ramBase
  memory := .filled ramFill
  occupied := p.occupied

theorem grants_iff {reserved : List PageRange} {r : PageRange} (hpages : 0 < r.pages)
    (haligned : pageSize ∣ r.address) :
    p.grants reserved r = true ↔ { p.window with reserved }.Room r := by
  have hend : p.window.base + p.window.size = ramLimit :=
    Nat.add_sub_cancel' (by decide : ramBase ≤ ramLimit)
  have hpages : r.pages ≠ 0 := Nat.ne_of_gt hpages
  have hmod : r.address % pageSize = 0 := Nat.mod_eq_zero_of_dvd haligned
  simp only [grants, Bool.and_eq_true, bne_iff_ne, beq_iff_eq, decide_eq_true_eq,
    List.all_eq_true]
  constructor
  · rintro ⟨⟨⟨-, hlo⟩, hhi⟩, hapart⟩
    refine ⟨hlo, Nat.le_trans hhi (Nat.le_of_eq hend.symm), fun q hq hmeet => ?_⟩
    have := hapart q hq
    omega
  · rintro ⟨hlo, hhi, hfree⟩
    refine ⟨⟨⟨⟨hpages, hmod⟩, hlo⟩, Nat.le_trans hhi (Nat.le_of_eq hend)⟩, fun q hq => ?_⟩
    have := hfree q hq
    omega

theorem grants?_window {reserved : List PageRange} {r : PageRange}
    (hb : { p.window with reserved }.Bounded) (hpages : 0 < r.pages)
    (haligned : pageSize ∣ r.address) :
    { p.window with reserved }.grants? r = some (p.grants reserved r) := by
  obtain ⟨granted, hanswer, hiff⟩ := Arena.grants?_spec hb r
  rw [hanswer, Option.some.injEq, Bool.eq_iff_iff]
  exact hiff.trans (grants_iff hpages haligned).symm

/-- The small firmware allocates its memory. -/
theorem allocates (hp : p.Healthy) :
    p.services.Allocates p.window fun reserved granted => granted = reserved := by
  have halloc : ∀ (reserved : List PageRange) (r : PageRange),
      p.services.allocatePages r.address r.pages reserved =
        if p.grants reserved r then (.ok r.address, reserved ++ [r])
        else (.error .notFound, reserved) := by
    intro reserved r
    show p.allocatePages r.address r.pages reserved = _
    rw [allocatePages, hp.allocating]
  constructor
  case grant =>
    rintro reserved _ r hpages haligned rfl hb hgrants
    rw [grants?_window hb hpages haligned, Option.some.injEq] at hgrants
    exact ⟨_, (halloc _ r).trans (if_pos hgrants), rfl⟩
  case refuse =>
    rintro reserved _ r hpages haligned rfl hb hgrants
    rw [grants?_window hb hpages haligned, Option.some.injEq] at hgrants
    have hno := Bool.eq_false_iff.1 hgrants
    exact ⟨_, _, (halloc _ r).trans (if_neg hno), rfl⟩

end Profile

/-! ## Loads -/

namespace StandIn

variable {ν φ α : Type} {S : StandIn ν φ α} {path : String} {name : List UInt16} {m : Machine}
  {b : Boot ν φ α}

/-- A machine and a boot before a load: the machine has the file at the path and the arena for its
memory, the boot has reserved the same ranges, and its memory holds the same bytes in the window. -/
structure Beside (S : StandIn ν φ α) (path : String) (m : Machine) (b : Boot ν φ α) : Prop where
  image : m.volume.openFile path = .ok (S.file.at 0)
  arena : m.memory.arena = some S.arena
  failure : m.memory.failure = none
  bounded : S.arena.Bounded
  reserved_eq : b.reserved = S.arena.reserved
  tracks : S.Tracks S.arena.reserved b.allocator
  window : SameWindow S.arena b.memory
  machine_grants : m.grantsScratch = S.grants
  boot_grants : b.grantsScratch = S.grants

theorem openImage (hpath : nameOf S.fw.spell path = .ok name) (hS : S.Faithful name b.volume)
    (hroom : b.AlwaysHasRoom) (h : S.Beside path m b) :
    S.comparison.Paired (Load.ask (.openImage path)) (Load.ask (.openImage path))
      (S.comparison.SameAnswer id (S.Agrees [] 0)) m b := by
  obtain ⟨f, f', volume', hopen, htype, hat⟩ := hS.stores.opens
  have hreply : Machine.reply (.openImage path) m =
      some (.ok (), { m with file := some (S.file.at 0) }) := by
    rw [Machine.reply, h.image]
  have hreply' : Boot.reply S.fw (.openImage path) b =
      some (.ok (), { b with volume := volume', file := some f' }, []) := by
    rw [Boot.reply, Boot.openFile, hpath]
    dsimp only
    rw [hopen]
    dsimp only
    rw [htype]
  refine Comparison.paired_ask (C := S.comparison) (Machine.reply_of_eq hreply)
    (Boot.reply_of_eq S.fw hreply') rfl ?_
  refine ⟨S.arena.reserved, S.arena.memory, S.arena.zeroCalls, 0, ?_, fun r hr => by cases hr⟩
  exact ⟨⟨rfl, h.arena, h.failure, h.machine_grants⟩, ⟨f', rfl, hat⟩, h.window, h.reserved_eq,
    h.boot_grants, hroom, h.tracks, h.bounded, Or.inl rfl⟩

/-- **A load through the firmware** ends as on the machine that stands in for it, if the list of
ranges always has room for one more: with the same image or with the same error.  Afterwards both
have the same ranges reserved, in the same order, and hold the same bytes in the window. -/
theorem image_agreement (hpath : nameOf S.fw.spell path = .ok name) (hS : S.Faithful name b.volume)
    (hroom : b.AlwaysHasRoom) (hbeside : S.Beside path m b) (listing listing' : Bool) :
    let run := m.run (Load.image path listing)
    let run' := b.run S.fw (Load.image path listing')
    ∃ result a', run.outcome = .done result ∧ run'.outcome = .done result ∧
      run.state.memory.arena = some a' ∧ (a'.base = S.arena.base ∧ a'.size = S.arena.size) ∧
      run'.state.reserved = a'.reserved ∧ SameWindow a' run'.state.memory := by
  have hpaired := (twins hS).image (fun _ => rfl) (Image.alike_refl _) listing listing'
    (openImage hpath hS hroom hbeside)
  rcases hpaired.done (fun _ _ => id) with ⟨_, loaded, hrun, hrun', rfl, hlast⟩ |
    ⟨e, _, hrun, hrun', rfl, hlast⟩
  · obtain ⟨reserved, memory, zeroCalls, harena, hreserved, hwindow⟩ := hlast
    exact ⟨.ok loaded, _, hrun, hrun', harena, ⟨rfl, rfl⟩, hreserved, hwindow⟩
  · obtain ⟨reserved, memory, zeroCalls, harena, hreserved, hwindow⟩ := hlast
    exact ⟨.error e, _, hrun, hrun', harena, ⟨rfl, rfl⟩, hreserved, hwindow⟩

/-- A 32-bit image of one segment in the memory of the small firmware. -/
def lowImage : List UInt8 :=
  Builder.build
    { width := .bits32
      entry := 0x10000002
      parts := [{ offset := 0x54, data := [7, 8], memorySize := 5, address := 0x10000002 }] }

/-- A small firmware with that image, which reads a few bytes at a time. -/
def lowProfile : Profile where
  files := [("\\kernel", lowImage)]
  chunk := some 9
  occupied := [⟨0x10001000, 1⟩]

/-- What stands in for it, which splits its reads in another way. -/
def lowStandIn : StandIn Unit Handle (List PageRange) where
  fw := lowProfile.services
  file := { content := lowImage, traits := { chunk := some 7 }, counted := true }
  arena := lowProfile.window
  grants := fun len => decide (len < scratchLimit)
  At := Profile.At lowImage
  Tracks reserved granted := granted = reserved

/-- The machine with that file and that arena. -/
def lowMachine : Machine where
  volume := { files := [("/kernel", lowImage)], traits := { chunk := some 7 } }
  memory := { arena := some lowProfile.window }

/-- Where there is no room for a range, the firmware does not agree with the machine. -/
theorem image_agreement_sample :
    let crowded : Model := { Model.fresh with grantsRoom := fun _ => false }
    let run := lowMachine.run (Load.image "/kernel" false)
    let run' := Model.fresh.run lowStandIn.fw (Load.image "/kernel" true)
    (crowded.run lowStandIn.fw (Load.image "/kernel" true)).outcome =
        .done (.error (.allocation (.buffer 16))) ∧
      run'.outcome = .done (.ok ⟨0x10000002, .bits32, 1, 0x10000002, 0x10000007⟩) ∧
      ∃ result a', run.outcome = .done result ∧ run'.outcome = .done result ∧
        run.state.memory.arena = some a' ∧
        (a'.base = lowStandIn.arena.base ∧ a'.size = lowStandIn.arena.size) ∧
        run'.state.reserved = a'.reserved ∧ SameWindow a' run'.state.memory := by
  have hpath : nameOf lowStandIn.fw.spell "/kernel" =
      .ok [92, 107, 101, 114, 110, 101, 108] := by
    decide +kernel
  have hhealthy : lowProfile.Healthy := by
    constructor
    all_goals decide
  have hfile : lowProfile.files.lookup (Profile.nameText [92, 107, 101, 114, 110, 101, 108]) =
      some lowImage := by
    decide +kernel
  have hS : lowStandIn.Faithful [92, 107, 101, 114, 110, 101, 108] () :=
    ⟨Profile.stores hhealthy hfile, Profile.allocates hhealthy, ⟨rfl, rfl, rfl⟩, by decide +kernel⟩
  have hbounded : lowProfile.window.Bounded := ⟨by decide, by decide⟩
  have hbeside : lowStandIn.Beside "/kernel" lowMachine Model.fresh :=
    ⟨rfl, rfl, rfl, hbounded, rfl, rfl, fun _ _ => rfl, rfl, rfl⟩
  exact ⟨by decide +kernel, by decide +kernel,
    image_agreement hpath hS (fun _ => rfl) hbeside false true⟩

end StandIn

end ElfBoot.Firmware
