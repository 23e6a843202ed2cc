import ElfBoot.Proofs.Load.Reading
import ElfBoot.Proofs.Load.Shift
import ElfBoot.Proofs.Load.Steps

/-!
# Placing beside a twin

Two collaborators are twins if a load cannot tell them apart: an exact read succeeds on both of
their files or on none, and their memories answer alike, the one on the right `shift` addresses
higher.  What is written and cleared counts only within the pages that were granted.

* `Comparison.Twins` — the laws of twins, one for each call.
* `Comparison.Twins.seek_bind`, `Comparison.Twins.scratch_bind`, `Comparison.Twins.read_bind` — the
  steps of a load that reads, in front of what follows them.
* `Comparison.Twins.placeSegment`, `Comparison.Twins.placeAll` — the same segments, moved by the
  shift, are placed alike.
-/

set_option autoImplicit false

namespace ElfBoot

namespace Comparison

variable {σ τ : Type}

/-- Collaborators that a load cannot tell apart.  `At granted position` says of two states that
both files stand at a position and that the ranges were granted on the left since the start. -/
structure Twins (C : Comparison σ τ) (content content' : List UInt8) (shift : Nat)
    (At : List PageRange → Nat → σ → τ → Prop) : Prop where
  errors : ∀ e : LoadError, e.Placeless → C.errors e e
  stop : ∀ granted p s t, At granted p s t → C.failed s t
  read : ∀ granted p s t n, At granted p s t →
    C.Paired (Load.readExact n) (Load.readExact n) (fun bs s' bs' t' =>
      bs = (content.drop p).take n ∧ bs' = (content'.drop p).take n ∧ bs.length = n ∧
        bs'.length = n ∧ At granted (p + n) s' t') s t
  seek : ∀ granted p s t offset, offset < wordLimit → At granted p s t →
    C.Paired (Load.ask (.seek offset)) (Load.ask (.seek offset))
      (C.SameAnswer .io (At granted offset)) s t
  scratch : ∀ granted p s t len, At granted p s t →
    C.Paired (Load.ask (.scratch len)) (Load.ask (.scratch len))
      (fun x s' y t' => y = x ∧ At granted p s' t') s t
  reserve : ∀ granted p s t address pages, 0 < pages → pageSize ∣ address → At granted p s t →
    C.Paired (Load.ask (.reserve address pages)) (Load.ask (.reserve (address + shift) pages))
      (C.SameAnswer id (At (granted ++ [⟨address, pages⟩]) p)) s t
  write : ∀ granted p s t (r : PageRange) address bytes, r ∈ granted → r.address ≤ address →
    address + bytes.length ≤ r.limit → At granted p s t →
    C.Paired (Load.ask (.write address bytes)) (Load.ask (.write (address + shift) bytes))
      (C.SameAnswer id (At granted p)) s t
  zero : ∀ granted p s t (r : PageRange) address len, r ∈ granted → r.address ≤ address →
    address + len ≤ r.limit → At granted p s t →
    C.Paired (Load.ask (.zero address len)) (Load.ask (.zero (address + shift) len))
      (C.SameAnswer id (At granted p)) s t
  close : ∀ granted p s t, At granted p s t →
    C.Paired (Load.ask .close) (Load.ask .close) (C.SameAnswer .io C.failed) s t

namespace Twins

variable {C : Comparison σ τ} {content content' : List UInt8} {shift : Nat}
  {At : List PageRange → Nat → σ → τ → Prop} {granted : List PageRange} {position : Nat}
  {s : σ} {t : τ} {α β : Type} {good : α → σ → β → τ → Prop}

/-! ## Reading -/

theorem seek_bind (hC : C.Twins content content' shift At) (hat : At granted position s t)
    {offset : Nat} (hoffset : offset < wordLimit) {describe : IoError → Notice}
    {f : Unit → Load α} {f' : Unit → Load β}
    (hf : ∀ s' t', At granted offset s' t' → C.Paired (f ()) (f' ()) good s' t') :
    C.Paired (Load.ask (.seek offset) >>= fun answer => Load.settleIo describe answer >>= f)
      (Load.ask (.seek offset) >>= fun answer => Load.settleIo describe answer >>= f')
      good s t := by
  refine (hC.seek granted position s t offset hoffset hat).bind fun x s' y t' hxy => ?_
  exact (hxy.settleIo describe describe).bind fun _ s'' _ t'' h => hf s'' t'' h

theorem scratch_bind (hC : C.Twins content content' shift At) (hat : At granted position s t)
    {n : Nat} {f : Unit → Load α} {f' : Unit → Load β}
    (hf : ∀ s' t', At granted position s' t' → C.Paired (f ()) (f' ()) good s' t') :
    C.Paired (Load.scratch n >>= f) (Load.scratch n >>= f') good s t := by
  unfold Load.scratch
  rw [bind_assoc, bind_assoc]
  refine (hC.scratch granted position s t n hat).bind ?_
  rintro x s' y t' ⟨rfl, hat'⟩
  cases y with
  | true => exact hf s' t' hat'
  | false =>
    rw [if_neg Bool.false_ne_true]
    exact paired_throw_bind (hC.errors _ (LoadError.placeless_buffer n)) (hC.stop _ _ _ _ hat')

theorem read_bind (hC : C.Twins content content' shift At) (hat : At granted position s t)
    {n : Nat} {describe : LoadError → Notice} {f : List UInt8 → Load α} {f' : List UInt8 → Load β}
    (hf : ∀ s' t', ((content.drop position).take n).length = n →
      ((content'.drop position).take n).length = n → At granted (position + n) s' t' →
      C.Paired (f ((content.drop position).take n)) (f' ((content'.drop position).take n))
        good s' t') :
    C.Paired (Load.reporting describe (Load.readExact n) >>= f)
      (Load.reporting describe (Load.readExact n) >>= f') good s t := by
  refine (hC.read granted position s t n hat).reporting.bind ?_
  rintro bs s' bs' t' ⟨rfl, rfl, hlength, hlength', hat'⟩
  exact hf s' t' hlength hlength' hat'

/-! ## Placing -/

/-- The bytes a segment takes are the same on both sides. -/
def SameBytes (content content' : List UInt8) (g : Segment) : Prop :=
  (content'.drop g.fileOffset).take g.fileSize = (content.drop g.fileOffset).take g.fileSize

variable {g : Segment}

/-- Some page range that was granted holds all of a segment, unless it takes no memory. -/
def Backs (granted : List PageRange) (g : Segment) : Prop :=
  0 < g.memorySize → ∃ r ∈ granted, r.address ≤ g.address ∧ g.address + g.memorySize ≤ r.limit

theorem reservePages (hC : C.Twins content content' shift At) (hshift : pageSize ∣ shift)
    (hat : At granted position s t) :
    C.Paired (Load.reservePages g g.pageCount)
      (Load.reservePages (g.shift shift) (g.shift shift).pageCount)
      (fun _ s' _ t' => ∃ granted', Backs granted' g ∧ At granted' position s' t') s t := by
  rw [Segment.pageCount_shift hshift]
  unfold Load.reservePages
  by_cases hpos : 0 < g.pageCount
  · rw [if_pos hpos, if_pos hpos, Segment.pageBase_shift hshift]
    refine paired_note_bind ?_
    have hask := hC.reserve granted position s t g.pageBase g.pageCount hpos g.dvd_pageBase hat
    refine hask.bind fun x s' y t' hxy => (hxy.settle _ _).mono fun _ s'' _ t'' hat' => ?_
    refine ⟨_, fun _ => ⟨⟨g.pageBase, g.pageCount⟩, ?_, g.le_limit_pages⟩, hat'⟩
    exact List.mem_append_right _ List.mem_cons_self
  · rw [if_neg hpos, if_neg hpos]
    refine paired_pure ⟨granted, fun hmemory => ?_, hat⟩
    exact absurd (Segment.pageCount_pos hmemory) hpos

theorem copyFromFile (hC : C.Twins content content' shift At) (hs : g.Sound)
    (hbytes : SameBytes content content' g) (hbacks : Backs granted g)
    (hat : At granted g.fileOffset s t) :
    C.Paired (Load.copyFromFile g) (Load.copyFromFile (g.shift shift))
      (fun _ s' _ t' => ∃ p, At granted p s' t') s t := by
  unfold Load.copyFromFile
  by_cases hpos : 0 < g.fileSize
  · have hpos' : 0 < (g.shift shift).fileSize := hpos
    rw [if_pos hpos, if_pos hpos']
    refine paired_note_bind (hC.scratch_bind hat fun s₁ t₁ hat₁ => paired_note_bind ?_)
    refine hC.read_bind hat₁ fun s₂ t₂ hlength _ hat₂ => paired_note_bind ?_
    have hsize := hs.size_le
    obtain ⟨r, hr, hlo, hhi⟩ := hbacks (by omega)
    have hin : g.address + ((content.drop g.fileOffset).take g.fileSize).length ≤ r.limit := by
      rw [hlength]
      omega
    rw [show (content'.drop g.fileOffset).take g.fileSize = _ from hbytes]
    refine (hC.write granted _ s₂ t₂ r g.address _ hr hlo hin hat₂).bind fun x s₃ y t₃ hxy => ?_
    exact (hxy.settle _ _).mono fun _ s₄ _ t₄ hat₄ => ⟨_, hat₄⟩
  · have hpos' : ¬ 0 < (g.shift shift).fileSize := hpos
    rw [if_neg hpos, if_neg hpos']
    exact paired_pure ⟨_, hat⟩

theorem clearRest (hC : C.Twins content content' shift At) (hs : g.Sound)
    (hs' : (g.shift shift).Sound) (hbacks : Backs granted g) (hat : At granted position s t) :
    C.Paired (Load.clearRest g) (Load.clearRest (g.shift shift))
      (fun _ s' _ t' => At granted position s' t') s t := by
  have hsize := hs.size_le
  have hend := hs.memory_end
  have hend' : g.address + shift + g.memorySize < wordLimit := hs'.memory_end
  have hstart : Address.add? g.address g.fileSize = some (g.address + g.fileSize) :=
    Address.add?_eq_some_iff.2 ⟨by omega, rfl⟩
  have hstart' : Address.add? (g.shift shift).address (g.shift shift).fileSize =
      some (g.address + g.fileSize + shift) := by
    refine Address.add?_eq_some_iff.2 ?_
    show g.address + shift + g.fileSize < wordLimit ∧ g.address + shift + g.fileSize = _
    omega
  have hrest' : (g.shift shift).zeroFill? = some (g.memorySize - g.fileSize) :=
    Segment.zeroFill?_eq hs'.size_le
  unfold Load.clearRest
  rw [Segment.zeroFill?_eq hs.size_le, hrest']
  refine paired_expect_bind ?_
  by_cases hpos : 0 < g.memorySize - g.fileSize
  · rw [if_pos hpos, if_pos hpos, hstart, hstart']
    refine paired_expect_bind (paired_note_bind ?_)
    obtain ⟨r, hr, hlo, hhi⟩ := hbacks (by omega)
    have hask := hC.zero granted position s t r (g.address + g.fileSize)
      (g.memorySize - g.fileSize) hr (by omega) (by omega) hat
    exact hask.bind fun x s' y t' hxy => hxy.settle _ _
  · rw [if_neg hpos, if_neg hpos]
    exact paired_pure hat

/-- **Placing a segment** on one side and the same segment, moved, on the other. -/
theorem placeSegment (hC : C.Twins content content' shift At) (hshift : pageSize ∣ shift)
    (hs : g.Sound) (hs' : (g.shift shift).Sound) (hbytes : SameBytes content content' g)
    (hat : At granted position s t) :
    C.Paired (Load.placeSegment g) (Load.placeSegment (g.shift shift))
      (fun _ s' _ t' => ∃ granted' p, At granted' p s' t') s t := by
  rw [Load.placeSegment_eq (Segment.pageCount?_eq hs.memory_end),
    Load.placeSegment_eq (Segment.pageCount?_eq hs'.memory_end)]
  have hoffset : g.fileOffset < wordLimit := Nat.lt_of_le_of_lt (Nat.le_add_right _ _) hs.file_end
  refine paired_note_bind (hC.seek_bind hat hoffset fun s₁ t₁ hat₁ => ?_)
  refine (hC.reservePages hshift hat₁).bind ?_
  rintro _ s₂ _ t₂ ⟨granted', hbacks, hat₂⟩
  refine (hC.copyFromFile hs hbytes hbacks hat₂).bind ?_
  rintro _ s₃ _ t₃ ⟨p, hat₃⟩
  exact (hC.clearRest hs hs' hbacks hat₃).mono fun _ s₄ _ t₄ hat₄ => ⟨granted', p, hat₄⟩

/-- **Placing segments one after another** on both sides. -/
theorem placeAll (hC : C.Twins content content' shift At) (hshift : pageSize ∣ shift)
    {segments : List Segment}
    (hs : ∀ g ∈ segments, (g.Sound ∧ (g.shift shift).Sound) ∧ SameBytes content content' g)
    (hat : At granted position s t) :
    C.Paired (Load.placeAll segments) (Load.placeAll (segments.map (Segment.shift shift)))
      (fun _ s' _ t' => ∃ granted' p, At granted' p s' t') s t := by
  induction segments generalizing granted position s t with
  | nil => exact paired_pure ⟨granted, position, hat⟩
  | cons g rest ih =>
    obtain ⟨⟨⟨hsound, hsound'⟩, hbytes⟩, hrest⟩ := List.forall_mem_cons.1 hs
    rw [List.map_cons]
    unfold Load.placeAll
    refine (hC.placeSegment hshift hsound hsound' hbytes hat).bind ?_
    rintro _ s' _ t' ⟨granted', p, hat'⟩
    exact paired_note_bind (ih hrest hat')

end Twins

end Comparison

end ElfBoot
