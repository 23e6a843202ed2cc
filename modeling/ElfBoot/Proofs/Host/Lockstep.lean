import ElfBoot.Proofs.Host.Rig
import ElfBoot.Proofs.Load.Twins
import ElfBoot.Proofs.Program.Conversation

/-!
# Rigs in lockstep

Two rigs whose calls meet the same fates, with files of equal length that behave alike, answer calls
on the file and the allocator alike.  What they have in common of their memories is a parameter.

* `File.twin`, `File.read_twin` — the file with other bytes, and its reads.
* `Rig.sideBySide` — two rigs as collaborators to compare.
* `Rig.Lockstep` — two rigs with open files at the same position.
* `Rig.Lockstep.seek`, `Rig.Lockstep.readsAlike`, `Rig.Lockstep.scratch`, `Rig.Lockstep.close` — the
  calls that do not reach the memory.
-/

set_option autoImplicit false

namespace ElfBoot.Host

/-- The same file with other bytes. -/
def File.twin (content : List UInt8) (f : File) : File := { f with content := content }

/-- A file and its twin of the same length fail at the same reads, and otherwise deliver as many
bytes, each its own. -/
theorem File.read_twin (f : File) {content : List UInt8}
    (hlength : content.length = f.content.length) (n : Nat) :
    (∃ x, f.read n = (.error x, f) ∧ (f.twin content).read n = (.error x, f.twin content)) ∨
      ∃ (c c' : Chunk n) (g : File), f.read n = (.ok c, g) ∧
        (f.twin content).read n = (.ok c', g.twin content) ∧
        c.val = (f.content.drop f.position).take c.val.length ∧
        c'.val = (content.drop f.position).take c'.val.length ∧
        c'.val.length = c.val.length ∧ g.content = f.content ∧
        g.position = f.position + c.val.length := by
  by_cases hfail : f.traits.failRead = some f.position
  · have hfail' : (f.twin content).traits.failRead = some (f.twin content).position := hfail
    left
    refine ⟨.readFailed readFailure, ?_, ?_⟩
    · rw [read, if_pos hfail]
    · rw [read, if_pos hfail']
  · have hfail' : ¬ (f.twin content).traits.failRead = some (f.twin content).position := hfail
    have hsame : ((f.twin content).available n).length = (f.available n).length := by
      unfold available
      rw [List.length_take, List.length_take, List.length_drop, List.length_drop]
      show min (f.reach n) (content.length - f.position) = _
      rw [hlength]
    have hspec : ∀ g : File,
        g.available n = (g.content.drop g.position).take (g.available n).length := by
      intro g
      unfold available
      rw [List.length_take]
      exact List.take_eq_take_min
    right
    refine ⟨⟨_, f.length_available_le n⟩, ⟨_, (f.twin content).length_available_le n⟩,
      { f with position := f.position + (f.available n).length }, ?_, ?_, hspec f,
      hspec (f.twin content), hsame, rfl, rfl⟩
    · rw [read, if_neg hfail]
    · rw [read, if_neg hfail', hsame]
      rfl

namespace Rig

variable {errors : LoadError → LoadError → Prop} {M N B : Memory → Memory → Prop}
  {counts : Event → Bool} {content content' : List UInt8} {position : Nat} {r r' : Rig}

/-- A read that is not made to fail reaches the file, perhaps with a smaller request. -/
theorem meet_read {fate : Fate} (hfate : ¬ ∃ cause, fate = .fail cause) (n : Nat) :
    ∃ (k : Nat) (hk : k ≤ n), ∀ m : Machine, meet fate (.read n) m =
      (m.onFile (File.read k)).map fun p => (p.1.map (widen hk), p.2) := by
  cases fate with
  | fail cause => exact absurd ⟨cause, rfl⟩ hfate
  | shorten limit => exact ⟨min n (max 1 limit), Nat.min_le_left _ _, fun m => rfl⟩
  | pass =>
    refine ⟨n, Nat.le_refl n, fun m => ?_⟩
    have hsame : ∀ p : Except IoError (Chunk n) × Machine,
        (p.1.map (widen (Nat.le_refl n)), p.2) = p := by
      rintro ⟨_ | _, _⟩ <;> rfl
    show m.onFile (File.read n) = _
    rw [funext hsame, Option.map_id']

/-- Two rigs as collaborators to compare, whose memories are to have `M` in common at the end, or
`B` if both runs break off. -/
def sideBySide (errors : LoadError → LoadError → Prop) (M B : Memory → Memory → Prop)
    (counts : Event → Bool) : Comparison Rig Rig where
  left := handler
  right := handler
  errors := errors
  failed r r' := M r.machine.memory r'.machine.memory
  broken r r' := B r.machine.memory r'.machine.memory
  counts := counts

/-- Two rigs whose calls meet the same fates.  Their files stand at the same position and differ in
their bytes only, and their memories have `M` in common. -/
structure Lockstep (content content' : List UInt8) (M : Memory → Memory → Prop) (position : Nat)
    (r r' : Rig) : Prop where
  fate : r'.fate = r.fate
  calls : r'.calls = r.calls
  grants : r'.machine.grantsScratch = r.machine.grantsScratch
  memory : M r.machine.memory r'.machine.memory
  file : ∃ f, r.machine.file = some f ∧ r'.machine.file = some (f.twin content') ∧
    f.content = content ∧ f.position = position

namespace Lockstep

theorem fate_eq (h : Lockstep content content' M position r r') :
    r'.fate r'.calls = r.fate r.calls := by rw [h.fate, h.calls]

/-- What a call does to the files alone keeps the step. -/
theorem next_file (h : Lockstep content content' M position r r') {f : File} {p : Nat}
    (hcontent : f.content = content) (hp : f.position = p) :
    Lockstep content content' M p (r.next { r.machine with file := some f })
      (r'.next { r'.machine with file := some (f.twin content') }) :=
  ⟨h.fate, congrArg (· + 1) h.calls, h.grants, h.memory, f, rfl, rfl, hcontent, hp⟩

theorem next_self (h : Lockstep content content' M position r r') :
    Lockstep content content' M position (r.next r.machine) (r'.next r'.machine) :=
  ⟨h.fate, congrArg (· + 1) h.calls, h.grants, h.memory, h.file⟩

theorem next_memory {K : Memory → Memory → Prop} (h : Lockstep content content' M position r r')
    {m m' : Memory} (hm : K m m') :
    Lockstep content content' K position (r.next { r.machine with memory := m })
      (r'.next { r'.machine with memory := m' }) :=
  ⟨h.fate, congrArg (· + 1) h.calls, h.grants, hm, h.file⟩

/-- Two calls that both rigs answer alike. -/
theorem paired_answer {c c' : Call} {answer : c.Answer} {answer' : c'.Answer} {m m' : Machine}
    (hmeet : meet (r.fate r.calls) c r.machine = some (answer, m))
    (hmeet' : meet (r'.fate r'.calls) c' r'.machine = some (answer', m'))
    {good : c.Answer → Rig → c'.Answer → Rig → Prop}
    (hcounts : [Event.mk c answer].filter counts = [Event.mk c' answer'].filter counts)
    (hgood : good answer (r.next m) answer' (r'.next m')) :
    (sideBySide errors N B counts).Paired (Load.ask c) (Load.ask c') good r r' := by
  have hreply := reply_of_meet hmeet
  have hreply' := reply_of_meet hmeet'
  refine Comparison.paired_ask (C := sideBySide errors N B counts) hreply hreply' ?_ ?_
  · exact hcounts
  · exact hgood

variable (herrors : ∀ e : LoadError, e.Placeless → errors e e) (hM : ∀ m m', M m m' → N m m')
include herrors hM

theorem seek (h : Lockstep content content' M position r r') (offset : Nat) :
    (sideBySide errors N B counts).Paired (Load.ask (.seek offset)) (Load.ask (.seek offset))
      ((sideBySide errors N B counts).SameAnswer .io (Lockstep content content' M offset))
      r r' := by
  obtain ⟨f, hf, hf', hcontent, hpos⟩ := h.file
  by_cases hfail : ∃ cause, r.fate r.calls = .fail cause
  · obtain ⟨cause, hfail⟩ := hfail
    have hmeet : meet (r.fate r.calls) (.seek offset) r.machine =
        some (.error cause, r.machine) := by rw [hfail]; rfl
    have hmeet' : meet (r'.fate r'.calls) (.seek offset) r'.machine =
        some (.error cause, r'.machine) := by rw [h.fate_eq, hfail]; rfl
    exact paired_answer hmeet hmeet' rfl
      ⟨herrors _ (LoadError.placeless_io cause), hM _ _ h.memory⟩
  have hpass := meet_of_not_fail (c := .seek offset) hfail (fun k hk => by cases hk) r.machine
  have hpass' := meet_of_not_fail (c := .seek offset) hfail (fun k hk => by cases hk) r'.machine
  rw [← h.fate_eq] at hpass'
  rw [Machine.reply, Machine.onFile, hf, Option.map_some] at hpass
  rw [Machine.reply, Machine.onFile, hf', Option.map_some] at hpass'
  by_cases hseek : f.traits.failSeek = some offset
  · have hseek' : (f.twin content').traits.failSeek = some offset := hseek
    rw [File.seek, if_pos hseek] at hpass
    rw [File.seek, if_pos hseek'] at hpass'
    exact paired_answer hpass hpass' rfl
      ⟨herrors _ (LoadError.placeless_io _), hM _ _ h.memory⟩
  · have hseek' : ¬ (f.twin content').traits.failSeek = some offset := hseek
    rw [File.seek, if_neg hseek] at hpass
    rw [File.seek, if_neg hseek'] at hpass'
    exact paired_answer hpass hpass' rfl (h.next_file hcontent rfl)

theorem readsAlike (hlength : content'.length = content.length)
    (hcounts : ∀ ev : Event, ev.isRead = true → counts ev = false) :
    (sideBySide errors N B counts).ReadsAlike content content' (Lockstep content content' M) := by
  constructor
  case stop =>
    intro p r r' x h
    exact ⟨herrors _ (LoadError.placeless_io x), hM _ _ h.memory⟩
  case read =>
    intro p r r' n hn h
    obtain ⟨f, hf, hf', hcontent, hpos⟩ := h.file
    have huncounted : ∀ x y : Except IoError (Chunk n),
        [Event.mk (.read n) x].filter counts = [Event.mk (.read n) y].filter counts := by
      intro x y
      have hx : counts ⟨.read n, x⟩ = false := hcounts _ rfl
      have hy : counts ⟨.read n, y⟩ = false := hcounts _ rfl
      simp [hx, hy]
    by_cases hfail : ∃ cause, r.fate r.calls = .fail cause
    · obtain ⟨cause, hfail⟩ := hfail
      have hmeet : meet (r.fate r.calls) (.read n) r.machine =
          some (.error cause, r.machine) := by rw [hfail]; rfl
      have hmeet' : meet (r'.fate r'.calls) (.read n) r'.machine =
          some (.error cause, r'.machine) := by rw [h.fate_eq, hfail]; rfl
      exact paired_answer hmeet hmeet' (huncounted _ _)
        ⟨herrors _ (LoadError.placeless_io cause), hM _ _ h.memory⟩
    obtain ⟨k, hk, hread⟩ := meet_read hfail n
    have hmeet := hread r.machine
    have hmeet' := hread r'.machine
    rw [← h.fate_eq] at hmeet'
    rw [Machine.onFile, hf, Option.map_some, Option.map_some] at hmeet
    rw [Machine.onFile, hf', Option.map_some, Option.map_some] at hmeet'
    rcases f.read_twin (hlength.trans (congrArg List.length hcontent.symm)) k with
      ⟨x, hx, hx'⟩ | ⟨c, c', g, hc, hc', htake, htake', hsame, hgcontent, hgpos⟩
    · rw [hx] at hmeet
      rw [hx'] at hmeet'
      exact paired_answer hmeet hmeet' (huncounted _ _)
        ⟨herrors _ (LoadError.placeless_io x), hM _ _ h.memory⟩
    · rw [hc] at hmeet
      rw [hc'] at hmeet'
      rw [hcontent, hpos] at htake
      rw [hpos] at htake' hgpos
      exact paired_answer hmeet hmeet' (huncounted _ _)
        ⟨htake, htake', hsame, h.next_file (hgcontent.trans hcontent) hgpos⟩

omit herrors hM in
theorem scratch (h : Lockstep content content' M position r r') (len : Nat) :
    (sideBySide errors N B counts).Paired (Load.ask (.scratch len)) (Load.ask (.scratch len))
      (fun x s y t => y = x ∧ Lockstep content content' M position s t) r r' := by
  by_cases hfail : ∃ cause, r.fate r.calls = .fail cause
  · obtain ⟨cause, hfail⟩ := hfail
    have hmeet : meet (r.fate r.calls) (.scratch len) r.machine = some (false, r.machine) := by
      rw [hfail]; rfl
    have hmeet' : meet (r'.fate r'.calls) (.scratch len) r'.machine =
        some (false, r'.machine) := by rw [h.fate_eq, hfail]; rfl
    exact paired_answer hmeet hmeet' rfl ⟨rfl, h.next_self⟩
  have hpass := meet_of_not_fail (c := .scratch len) hfail (fun k hk => by cases hk) r.machine
  have hpass' := meet_of_not_fail (c := .scratch len) hfail (fun k hk => by cases hk) r'.machine
  rw [← h.fate_eq] at hpass'
  rw [Machine.reply] at hpass
  rw [Machine.reply, h.grants] at hpass'
  exact paired_answer hpass hpass' rfl ⟨rfl, h.next_self⟩

theorem close (h : Lockstep content content' M position r r') :
    (sideBySide errors N B counts).Paired (Load.ask .close) (Load.ask .close)
      ((sideBySide errors N B counts).SameAnswer .io (sideBySide errors N B counts).failed)
      r r' := by
  obtain ⟨f, hf, hf', -, -⟩ := h.file
  by_cases hfail : ∃ cause, r.fate r.calls = .fail cause
  · obtain ⟨cause, hfail⟩ := hfail
    have hmeet : meet (r.fate r.calls) .close r.machine =
        some (.error cause, { r.machine with file := none }) := by rw [hfail]; rfl
    have hmeet' : meet (r'.fate r'.calls) .close r'.machine =
        some (.error cause, { r'.machine with file := none }) := by rw [h.fate_eq, hfail]; rfl
    exact paired_answer hmeet hmeet' rfl
      ⟨herrors _ (LoadError.placeless_io cause), hM _ _ h.memory⟩
  have hpass := meet_of_not_fail (c := .close) hfail (fun k hk => by cases hk) r.machine
  have hpass' := meet_of_not_fail (c := .close) hfail (fun k hk => by cases hk) r'.machine
  rw [← h.fate_eq] at hpass'
  rw [Machine.reply, Machine.closeFile, hf, Option.map_some] at hpass
  rw [Machine.reply, Machine.closeFile, hf', Option.map_some] at hpass'
  refine paired_answer hpass hpass' rfl ?_
  show (sideBySide errors N B counts).SameAnswer .io _ f.close _ f.close _
  cases f.close with
  | ok u => exact hM _ _ h.memory
  | error e => exact ⟨herrors _ (LoadError.placeless_io e), hM _ _ h.memory⟩

end Lockstep

end Rig

end ElfBoot.Host
