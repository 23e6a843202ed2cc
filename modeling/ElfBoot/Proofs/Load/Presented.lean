import ElfBoot.Load.Identity
import ElfBoot.Proofs.Image.ReadBack
import ElfBoot.Proofs.Load.Reading
import ElfBoot.Proofs.Load.Steps

/-!
# Surveying a built image

Collaborators present a file if no call on it fails and the buffers that headers may need are to be
had.  How a read is split is left to them.  On such collaborators a load finds in a built image what
the image was built from.

* `Handler.Presents` — collaborators with a file open.
* `Handler.Presents.seek_bind`, `Handler.Presents.buffer_bind`, `Handler.Presents.read_bind` — rules
  for the three steps in front of what follows them.
* `Handler.Presents.identify`, `Handler.Presents.readHeaders`, `Handler.Presents.examine` — the
  stages of a survey, and all of it.
-/

set_option autoImplicit false

namespace ElfBoot

/-- Collaborators with a file open on which no call fails, and with every buffer that headers may
need.  `At p` says of a state that the file stands at position `p`. -/
structure Handler.Presents {σ : Type} (h : Handler σ) (contents : List UInt8)
    (At : Nat → σ → Prop) : Prop where
  seek : ∀ p s offset, offset < wordLimit → At p s → ∃ reply,
    h.reply (.seek offset) s = some reply ∧ reply.answer = .ok () ∧ At offset reply.state
  read : h.Delivers contents At fun _ _ => False
  buffer : ∀ p s n, n ≤ maxTableSize → At p s → ∃ reply,
    h.reply (.scratch n) s = some reply ∧ reply.answer = true ∧ At p reply.state

namespace Handler.Presents

open Load (Ensures)

variable {σ : Type} {h : Handler σ} {contents : List UInt8} {At : Nat → σ → Prop}
  {position n : Nat} {s : σ}

/-! ## Rules -/

section Rules

variable {α : Type} {Q : Except LoadError α → σ → Prop}

theorem seek_bind (hfile : h.Presents contents At) (hat : At position s) {offset : Nat}
    (hoffset : offset < wordLimit) {describe : IoError → Notice} {f : Unit → Load α}
    (hf : ∀ s', At offset s' → Ensures h (f ()) Q s') :
    Ensures h (Load.ask (.seek offset) >>= fun answer => Load.settleIo describe answer >>= f)
      Q s := by
  obtain ⟨reply, hreply, hanswer, hat'⟩ := hfile.seek position s offset hoffset hat
  refine Load.ensures_ask_bind.2 ⟨reply, hreply, ?_⟩
  rw [hanswer]
  exact Load.ensures_settleIo_bind.2 (hf _ hat')

theorem buffer_bind (hfile : h.Presents contents At) (hat : At position s)
    (hn : n ≤ maxTableSize) {f : Unit → Load α}
    (hf : ∀ s', At position s' → Ensures h (f ()) Q s') :
    Ensures h (Load.scratch n >>= f) Q s := by
  obtain ⟨reply, hreply, hanswer, hat'⟩ := hfile.buffer position s n hn hat
  rw [Load.scratch, bind_assoc]
  refine Load.ensures_ask_bind.2 ⟨reply, hreply, ?_⟩
  rw [hanswer, if_pos rfl, pure_bind]
  exact hf _ hat'

theorem read_bind (hfile : h.Presents contents At) (hat : At position s)
    (hn : position + n ≤ contents.length) {describe : LoadError → Notice}
    {f : List UInt8 → Load α}
    (hf : ∀ s', At (position + n) s' → Ensures h (f ((contents.drop position).take n)) Q s') :
    Ensures h (Load.reporting describe (Load.readExact n) >>= f) Q s := by
  refine (Load.ensures_reporting.2 (Load.ensures_readExact_of_le hfile.read hat hn)).bind ?_ ?_
  · rintro bs s' ⟨hbs, hat'⟩
    cases hbs
    exact hf s' hat'
  · rintro e s' ⟨he, -⟩
    cases he

end Rules

/-! ## Built images -/

section Built

variable {b : Builder}

/-- The identity block of a built image names its width. -/
theorem identify (hb : b.WellFormed) (hfile : h.Presents b.build At) (hat : At position s) :
    Ensures h (Load.readIdentity >>= Load.validateIdentity)
      (fun result s' => result = .ok b.width ∧ ∃ p, At p s') s := by
  unfold Load.readIdentity Load.validateIdentity
  simp only [bind_assoc]
  refine Load.ensures_note_bind.2 (hfile.seek_bind hat (by decide) fun s₁ hat₁ => ?_)
  have hlength : 0 + identitySize ≤ b.build.length := by
    have hsize : identitySize ≤ b.width.headerSize := by cases b.width <;> decide
    have hle := b.headerSize_add_le
    omega
  refine hfile.read_bind hat₁ hlength fun s₂ hat₂ => ?_
  rw [List.drop_zero, hb.ofBytes?_take, Load.ensures_expect_bind, Load.ensures_notes_bind,
    Load.ensures_check]
  exact ⟨Builder.validate_identity b.width, _, hat₂⟩

/-- The table of a built image is that of its parts. -/
theorem readTable (hb : b.WellFormed) (hfile : h.Presents b.build At) (hat : At position s)
    {header : FileHeader} (hheader : b.ShownBy header) :
    Ensures h (Load.readTable b.width header) (fun result s' =>
      ∃ table, result = .ok table ∧ table.Shows b.parts ∧ ∃ p, At p s') s := by
  have hcount := hheader.phnum
  by_cases hz : header.phnum = 0
  · have hnone : b.parts = [] := by
      rw [hz] at hcount
      exact List.eq_nil_of_length_eq_zero hcount.symm
    unfold Load.readTable
    rw [if_pos hz, hnone]
    exact Load.ensures_pure.2 ⟨_, rfl, Table.shows_empty b.width, position, hat⟩
  have hparts : b.parts ≠ [] := by
    intro hnil
    rw [hnil, List.length_nil] at hcount
    exact hz (UInt16.toNat_inj.1 hcount)
  have hsize : header.tableSize = b.parts.length * b.stride := by
    rw [FileHeader.tableSize, hheader.phentsize, hcount, Nat.mul_comm]
  have hphoff := hheader.phoff hparts
  have hsmall : ¬ b.stride < b.width.entrySize := Nat.not_lt.2 b.entrySize_le_stride
  have hlarge : ¬ maxTableSize < b.parts.length * b.stride := Nat.not_lt.2 hb.table
  have hoffset : b.width.headerSize < wordLimit := by cases b.width <;> decide
  obtain ⟨table, htable, hshows⟩ := hb.exists_ofBlob
  rw [Load.readTable_eq _ _ hz, hheader.phentsize, hsize, hphoff, if_neg hsmall, if_neg hlarge]
  refine Load.ensures_note_bind.2 (hfile.seek_bind hat hoffset fun s₁ hat₁ => ?_)
  refine Load.ensures_note_bind.2 (hfile.buffer_bind hat₁ hb.table fun s₂ hat₂ => ?_)
  refine Load.ensures_note_bind.2 (hfile.read_bind hat₂ b.headerSize_add_le fun s₃ hat₃ => ?_)
  rw [htable]
  exact Load.ensures_pure.2 ⟨table, rfl, hshows, _, hat₃⟩

/-- **The headers of a built image** say what it was built from. -/
theorem readHeaders (hb : b.WellFormed) (hfile : h.Presents b.build At) (hat : At position s) :
    Ensures h (Load.readHeaders (some b.width)) (fun result s' =>
      ∃ found, result = .ok found ∧ b.ShownBy found.file ∧ found.table.Shows b.parts ∧
        ∃ p, At p s') s := by
  have hlength : 0 + b.width.headerSize ≤ b.build.length := by
    have hle := b.headerSize_add_le
    omega
  have hbuffer : b.width.headerSize ≤ maxTableSize := by cases b.width <;> decide
  obtain ⟨header, hdecode, hheader⟩ := hb.exists_decode
  unfold Load.readHeaders
  refine Load.ensures_note_bind.2 (hfile.seek_bind hat (by decide) fun s₁ hat₁ => ?_)
  refine Load.ensures_note_bind.2 (hfile.buffer_bind hat₁ hbuffer fun s₂ hat₂ => ?_)
  refine Load.ensures_note_bind.2 (hfile.read_bind hat₂ hlength fun s₃ hat₃ => ?_)
  rw [List.drop_zero, hb.take_headerSize, hdecode, Load.ensures_expect_bind]
  refine (hfile.readTable hb hat₃ hheader).bind ?_ ?_
  · rintro table s₄ ⟨_, heq, hshows, hat₄⟩
    cases heq
    exact Load.ensures_pure.2 ⟨⟨header, table⟩, rfl, hheader, hshows, hat₄⟩
  · rintro e s₄ ⟨_, heq, -⟩
    cases heq

/-- **The survey of a built image** ends with the plan of its parts. -/
theorem examine (hb : b.WellFormed) (hfile : h.Presents b.build At) (hat : At position s)
    (listing : Bool) :
    Ensures h (Load.examine listing) (fun result s' =>
      ∃ table, table.Shows b.parts ∧ (∃ p, At p s') ∧
        match result with
        | .ok found => Plan.ofTable table = .ok found.plan ∧ found.width = b.width ∧
            found.headers.file.entry.toNat = b.entry
        | .error e => Plan.ofTable table = .error e) s := by
  unfold Load.examine
  refine (hfile.identify hb hat).bind ?_ ?_
  · rintro w s₁ ⟨hw, p, hat₁⟩
    cases hw
    rw [Load.ensures_note_bind]
    refine (hfile.readHeaders hb hat₁).bind ?_ ?_
    · rintro headers s₂ ⟨_, heq, hheader, hshows, hat₂⟩
      cases heq
      unfold Load.makePlan
      rw [Load.ensures_notes_bind, bind_assoc, Load.ensures_notes_bind, Load.ensures_check_bind]
      cases hplan : Plan.ofTable headers.table with
      | ok plan => exact Load.ensures_pure.2 ⟨_, hshows, hat₂, hplan, rfl, hheader.entry⟩
      | error e => exact ⟨_, hshows, hat₂, hplan⟩
    · rintro e s₂ ⟨_, heq, -⟩
      cases heq
  · rintro e s₁ ⟨heq, -⟩
    cases heq

end Built

end Handler.Presents

end ElfBoot
