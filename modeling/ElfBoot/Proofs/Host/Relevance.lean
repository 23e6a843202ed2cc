import ElfBoot.Proofs.Host.Lockstep
import ElfBoot.Proofs.Host.Outcome
import ElfBoot.Proofs.Load.TwinLoads

/-!
# What a load depends on

Images that are alike cannot be told apart by loading them: the load ends the same way, every call
but the reads is made with the same answer, and the memory is left the same.  So flags, alignments,
virtual addresses, entries that are not placed, section header fields and all bytes outside of the
segments make no difference, and neither does it whether the headers are listed.

* `Rig.Lockstep.same_memory` — one call on two memories that are the same.
* `Rig.twins_same_memory` — two rigs with the same memory are twins.
* `Rig.image_irrelevance` — loads of alike images.
-/

set_option autoImplicit false

namespace ElfBoot

/-- The call is one on the memory. -/
def Call.reachesMemory : Call → Bool
  | reserve _ _ | write _ _ | zero _ _ => true
  | _ => false

namespace Host.Rig

variable {content content' : List UInt8} {position : Nat} {r r' : Rig}

/-- A call on the memory always gets through, and does to the memory what it does there. -/
theorem meet_onMemory {c : Call} (hc : c.reachesMemory = true) (fate : Fate) :
    ∃ act : Memory → Option (c.Answer × Memory), ∀ m : Machine,
      meet fate c m = (act m.memory).map fun p => (p.1, { m with memory := p.2 }) := by
  cases c with
  | reserve address pages =>
    exact ⟨fun memory => memory.apply .reserve fun a => a.reserve address pages, fun m => rfl⟩
  | write address bytes =>
    exact ⟨fun memory => memory.apply .write fun a => a.write address bytes, fun m => rfl⟩
  | zero address len =>
    exact ⟨fun memory => memory.apply .zero fun a => a.zero address len, fun m => rfl⟩
  | _ => cases hc

/-- Two rigs as collaborators that are to do the same, reads apart. -/
def doingTheSame : Comparison Rig Rig := sideBySide Eq Eq Eq fun ev => !ev.isRead

theorem Lockstep.same_memory (h : Lockstep content content' Eq position r r') {c : Call}
    (hc : c.reachesMemory = true) :
    doingTheSame.Paired (Load.ask c) (Load.ask c)
      (fun x s y t => y = x ∧ Lockstep content content' Eq position s t) r r' := by
  obtain ⟨act, hact⟩ := meet_onMemory hc (r.fate r.calls)
  have hmeet := hact r.machine
  have hmeet' := hact r'.machine
  rw [← h.fate_eq, ← h.memory] at hmeet'
  cases hdone : act r.machine.memory with
  | none =>
    rw [hdone] at hmeet hmeet'
    refine Comparison.paired_ask_of_none (C := doingTheSame) ?_ ?_ h.memory
    · show (meet _ c r.machine).map _ = none
      rw [hmeet]
      rfl
    · show (meet _ c r'.machine).map _ = none
      rw [hmeet']
      rfl
  | some p =>
    rw [hdone] at hmeet hmeet'
    exact paired_answer hmeet hmeet' rfl ⟨rfl, h.next_memory rfl⟩

/-- Two rigs with the same memory are twins. -/
theorem twins_same_memory (hlength : content'.length = content.length) :
    doingTheSame.Twins content content' 0 fun _ => Lockstep content content' Eq := by
  have hfailed : ∀ {position : Nat} {r r' : Rig}, Lockstep content content' Eq position r r' →
      doingTheSame.failed r r' := fun h => h.memory
  have hanswer : ∀ {position : Nat} {r r' : Rig} {c : Call} (hc : c.reachesMemory = true)
      (h : Lockstep content content' Eq position r r'),
      doingTheSame.Paired (Load.ask c) (Load.ask c)
        (fun x s y t => y = x ∧ Lockstep content content' Eq position s t) r r' :=
    fun hc h => h.same_memory hc
  constructor
  case errors => exact fun e _ => rfl
  case stop => exact fun _ _ _ _ h => hfailed h
  case read =>
    intro _ p r r' n h
    refine Comparison.paired_readExact ?_ h n
    refine Lockstep.readsAlike (fun e _ => rfl) (fun _ _ h => h) hlength fun ev hev => ?_
    rw [hev]
    rfl
  case seek => exact fun _ _ _ _ offset _ h => h.seek (fun e _ => rfl) (fun _ _ h => h) offset
  case scratch => exact fun _ _ _ _ len h => h.scratch len
  case reserve =>
    intro _ p r r' address pages _ _ h
    refine (hanswer (c := .reserve address pages) rfl h).mono fun x s y t hxy => ?_
    exact Comparison.sameAnswer_of_eq hxy.1 (fun _ => rfl) hxy.2 (hfailed hxy.2)
  case write =>
    intro _ p r r' _ address bytes _ _ _ h
    refine (hanswer (c := .write address bytes) rfl h).mono fun x s y t hxy => ?_
    exact Comparison.sameAnswer_of_eq hxy.1 (fun _ => rfl) hxy.2 (hfailed hxy.2)
  case zero =>
    intro _ p r r' _ address len _ _ _ h
    refine (hanswer (c := .zero address len) rfl h).mono fun x s y t hxy => ?_
    exact Comparison.sameAnswer_of_eq hxy.1 (fun _ => rfl) hxy.2 (hfailed hxy.2)
  case close => exact fun _ _ _ _ h => h.close (fun e _ => rfl) (fun _ _ h => h)

/-! ## Loads of alike images -/

/-- A machine with an image at a path, and the fate of every call. -/
def holding (m : Machine) (fate : Nat → Fate) (path : String) (content : List UInt8) : Rig where
  machine := { m with volume := m.volume.insert path content }
  fate := fate

theorem openFile_insert (v : Volume) (path : String) (content : List UInt8) :
    (v.insert path content).openFile path =
      match v.failOpen with
      | some e => .error e
      | none => .ok { content, traits := v.traits, counted := true } := by
  have hlookup : (v.insert path content).files.lookup path = some content := List.lookup_cons_self
  unfold Volume.openFile
  rw [hlookup]
  rfl

/-- Opening two images of equal length at the same path. -/
theorem paired_openImage (m : Machine) (fate : Nat → Fate) (path : String)
    (content content' : List UInt8) :
    doingTheSame.Paired (Load.ask (.openImage path)) (Load.ask (.openImage path))
      (doingTheSame.SameAnswer id (Lockstep content content' Eq 0))
      (holding m fate path content) (holding m fate path content') := by
  by_cases hfail : ∃ cause, fate 0 = .fail cause
  · obtain ⟨cause, hfail⟩ := hfail
    have hmeet : ∀ bs : List UInt8, meet (fate 0) (.openImage path)
        (holding m fate path bs).machine =
          some (.error (.io cause), (holding m fate path bs).machine) := by
      intro bs
      rw [hfail]
      rfl
    refine Lockstep.paired_answer (hmeet content) (hmeet content') rfl ?_
    exact ⟨rfl, rfl⟩
  have hpass : ∀ bs : List UInt8, meet (fate 0) (.openImage path)
      (holding m fate path bs).machine =
        Machine.reply (.openImage path) (holding m fate path bs).machine :=
    fun bs => meet_of_not_fail hfail (fun k hk => by cases hk) _
  have hopen : ∀ bs : List UInt8, (holding m fate path bs).machine.volume.openFile path = _ :=
    fun bs => openFile_insert m.volume path bs
  have hmeet := hpass content
  have hmeet' := hpass content'
  rw [Machine.reply, hopen] at hmeet hmeet'
  cases hno : m.volume.failOpen with
  | some e =>
    simp only [hno] at hmeet hmeet'
    refine Lockstep.paired_answer hmeet hmeet' rfl ?_
    exact ⟨rfl, rfl⟩
  | none =>
    simp only [hno] at hmeet hmeet'
    refine Lockstep.paired_answer hmeet hmeet' rfl ?_
    exact ⟨rfl, rfl, rfl, rfl, _, rfl, rfl, rfl, rfl⟩

/-- **Loads of alike images** end the same way, make the same calls with the same answers, reads
apart, and leave the same memory, on every machine, however its calls are interfered with. -/
theorem image_irrelevance (m : Machine) (fate : Nat → Fate) (path : String)
    {content content' : List UInt8} (halike : Image.Alike content content')
    (listing listing' : Bool) :
    let run := (holding m fate path content).run (Load.image path listing)
    let run' := (holding m fate path content').run (Load.image path listing')
    run'.outcome = run.outcome ∧
      (run'.events.filter fun ev => !ev.isRead) = (run.events.filter fun ev => !ev.isRead) ∧
      run'.state.machine.memory = run.state.machine.memory := by
  have hpaired := (twins_same_memory halike.length_eq).image (fun _ => rfl) halike listing listing'
    (paired_openImage m fate path content content')
  have herrors : ∀ e e', doingTheSame.errors e e' → e' = e := fun _ _ he => he.symm
  obtain ⟨houtcome, hmemory⟩ := hpaired.same herrors fun _ _ h => h
  exact ⟨houtcome, hpaired.events.symm, hmemory.symm⟩

/-- A 32-bit image of one segment behind an entry that is not placed. -/
def notedImage (kind : UInt32) (memorySize address : Nat) : List UInt8 :=
  Builder.build
    { width := .bits32
      entry := 0x1002
      parts := [{ kind, offset := 0, data := [], memorySize, address },
        { offset := 0x74, data := [7, 8], memorySize := 5, address := 0x1002 }] }

/-- The entry that is not placed is empty in the one image and as large as can be in the other. -/
theorem image_irrelevance_sample :
    let fate : Nat → Fate := fun _ => .shorten 7
    let run := (holding sampleRig.machine fate "kernel" (notedImage 4 0 0)).run
      (Load.image "kernel" false)
    let run' := (holding sampleRig.machine fate "kernel" (notedImage 7 0xFFFFFFFF 0xFFFFFFFF)).run
      (Load.image "kernel" true)
    Image.Alike (notedImage 4 0 0) (notedImage 7 0xFFFFFFFF 0xFFFFFFFF) ∧
      run.outcome = .done (.ok ⟨0x1002, .bits32, 1, 0x1002, 0x1007⟩) ∧
      run'.outcome = run.outcome ∧
      (run'.events.filter fun ev => !ev.isRead) = (run.events.filter fun ev => !ev.isRead) ∧
      run'.state.machine.memory = run.state.machine.memory := by
  have halike : Image.Alike (notedImage 4 0 0) (notedImage 7 0xFFFFFFFF 0xFFFFFFFF) := by
    constructor
    all_goals decide +kernel
  exact ⟨halike, by decide +kernel,
    image_irrelevance sampleRig.machine _ "kernel" halike false true⟩

end Host.Rig

end ElfBoot
