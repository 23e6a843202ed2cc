import ElfBoot.Proofs.Host.Loading
import ElfBoot.Proofs.Host.Machine

/-!
# When placing succeeds

The exact condition under which a machine places a segment, some segments or a table, whatever its
file was made to fail at.  Whether the file gives a segment its bytes has nothing to do with what
was read before.

* `Load.Hinges` — a load that ends with a value exactly if a condition holds.
* `File.Supplies`, `File.Provides` — a file lets bytes be read, and all bytes of a segment.
* `Machine.Holds.placeSegment`, `Machine.Holds.placeAll`, `Machine.Holds.placeTable` — placing, and
  what it leaves if it succeeds.
-/

set_option autoImplicit false

namespace ElfBoot

/-! ## Loads that hinge on a condition -/

namespace Load

variable {σ α β : Type} {h : Handler σ} {s : σ} {cond cond' : Prop}

/-- A load ends with a value exactly if the condition holds; of the value and the state it leaves,
more is known. -/
def Hinges (cond : Prop) (good : α → σ → Prop) : Except LoadError α → σ → Prop
  | .ok a, s => cond ∧ good a s
  | .error _, _ => ¬ cond

theorem Ensures.hinges_imp {p : Load α} {good good' : α → σ → Prop}
    (hp : Ensures h p (Hinges cond good) s) (hgood : ∀ a s', good a s' → good' a s') :
    Ensures h p (Hinges cond good') s := by
  refine hp.mono fun result s' hr => ?_
  cases result with
  | ok a => exact ⟨hr.1, hgood a s' hr.2⟩
  | error e => exact hr

/-- A sequence hinges on what both of its parts hinge on. -/
theorem Ensures.hinges_bind {p : Load β} {f : β → Load α} {mid : β → σ → Prop}
    {good : α → σ → Prop} {whole : Prop} (hp : Ensures h p (Hinges cond mid) s)
    (hwhole : whole ↔ cond ∧ cond')
    (hf : ∀ b s', cond → mid b s' → Ensures h (f b) (Hinges cond' good) s') :
    Ensures h (p >>= f) (Hinges whole good) s := by
  refine hp.bind (fun b s' hr => ?_) fun e s' hno hboth => hno (hwhole.1 hboth).1
  refine (hf b s' hr.1 hr.2).mono fun result s'' hr' => ?_
  cases result with
  | ok a => exact ⟨hwhole.2 ⟨hr.1, hr'.1⟩, hr'.2⟩
  | error e => exact fun hboth => hr' (hwhole.1 hboth).2

/-- A load that hinges on a condition ends with a value exactly if it holds. -/
theorem Ensures.exists_value_iff {p : Load α} {good : α → σ → Prop}
    (hp : Ensures h p (Hinges cond good) s) :
    (∃ a, (Program.run h p.run s).outcome = .done (.ok a)) ↔ cond := by
  constructor
  · rintro ⟨a, hrun⟩
    exact (hp.of_outcome hrun).1
  · intro hcond
    obtain ⟨result, hrun, hresult⟩ := hp
    cases result with
    | ok a => exact ⟨a, hrun⟩
    | error e => exact absurd hcond hresult

end Load

open Load (Ensures Hinges)

namespace Host

/-! ## Files -/

/-- The file lets `n` bytes be read from an offset on. -/
def File.Supplies (f : File) (offset n : Nat) : Prop :=
  ∃ bs, (Machine.run { file := some (f.at offset) } (Load.readExact n)).outcome = .done (.ok bs)

/-- All that a load needs of a file and of the scratch allocator to place a segment. -/
structure File.Provides (f : File) (grants : Nat → Bool) (s : Segment) : Prop where
  seek : f.traits.failSeek ≠ some s.fileOffset
  bytes : 0 < s.fileSize → grants s.fileSize = true ∧ f.Supplies s.fileOffset s.fileSize

namespace Machine

/-- Two machines with the same file, of which nothing else is compared. -/
def sameFile : Comparison Machine Machine where
  left := handler
  right := handler
  errors _ _ := True
  failed _ _ := True
  broken _ _ := False
  counts _ := false

theorem readsAlike_sameFile (f : File) :
    sameFile.ReadsAlike f.content f.content fun p m m' =>
      m.file = some (f.at p) ∧ m'.file = some (f.at p) := by
  constructor
  case stop => exact fun _ _ _ _ _ => ⟨trivial, trivial⟩
  case read =>
    rintro p m m' n - ⟨hfile, hfile'⟩
    have hreply : ∀ {m : Machine}, m.file = some (f.at p) → reply (.read n) m =
        some (((f.at p).read n).1, { m with file := some ((f.at p).read n).2 }) := by
      intro m hfile
      rw [reply, onFile, hfile, Option.map_some]
    refine Comparison.paired_ask (C := sameFile) (reply_of_eq (hreply hfile))
      (reply_of_eq (hreply hfile')) rfl ?_
    have hspec := (f.at p).read_spec n
    dsimp only
    cases hans : ((f.at p).read n).1 with
    | ok chunk =>
      rw [hans] at hspec
      obtain ⟨htake, -, hstate⟩ := hspec
      rw [hstate]
      exact ⟨htake, htake, rfl, rfl, rfl⟩
    | error e => exact ⟨trivial, trivial⟩

namespace Holds

variable {f : File} {a : Arena} {grants : Nat → Bool} {m : Machine} {position : Nat} {s : Segment}

/-- Whether an exact read succeeds depends on the file alone. -/
theorem readExact_hinges (h : m.Holds (f.at position) a grants) (n : Nat) :
    Ensures handler (Load.readExact n) (Hinges (f.Supplies position n) fun bs m' =>
      bs = (f.content.drop position).take n ∧ bs.length = n ∧
        m'.Holds (f.at (position + n)) a grants) m := by
  have hpaired := Comparison.paired_readExact (readsAlike_sameFile f)
    (s := m) (t := { file := some (f.at position) }) ⟨h.file, rfl⟩ n
  obtain ⟨result, hrun, hresult⟩ := h.readExact n
  refine ⟨result, hrun, ?_⟩
  rcases hpaired.done fun _ _ => id with ⟨bs, bs', hleft, hright, -⟩ | ⟨e, e', hleft, hright, -⟩
  · have hsame : result = .ok bs := by
      have hboth := hrun.symm.trans hleft
      cases hboth
      rfl
    subst hsame
    exact ⟨⟨bs', hright⟩, hresult⟩
  · have hsame : result = .error e := by
      have hboth := hrun.symm.trans hleft
      cases hboth
      rfl
    subst hsame
    rintro ⟨bs', hyes⟩
    have hboth := hyes.symm.trans hright
    cases hboth

/-! ## One segment -/

theorem reservePages (h : m.Holds f a grants) (hb : a.Bounded) :
    Ensures handler (Load.reservePages s s.pageCount)
      (Hinges (a.Admits s) fun _ m' => m'.Holds f (a.claim s) grants) m := by
  unfold Load.reservePages
  by_cases hpos : 0 < s.pageCount
  · rw [if_pos hpos, Load.ensures_note_bind]
    have hadmits : a.Admits s ↔ a.Room ⟨s.pageBase, s.pageCount⟩ := Arena.admits_iff_room hpos
    by_cases hroom : a.Room ⟨s.pageBase, s.pageCount⟩
    · obtain ⟨m', hreply, hm'⟩ := h.reserve (Arena.reserve_of_room hb hroom)
      refine Load.ensures_ask_bind.2 ⟨_, hreply, Load.ensures_settle.2 ⟨hadmits.2 hroom, ?_⟩⟩
      rw [Arena.claim_of_pos hpos]
      exact hm'
    · obtain ⟨m', hreply, -⟩ := h.reserve (Arena.reserve_of_no_room hb hroom)
      refine Load.ensures_ask_bind.2 ⟨_, hreply, Load.ensures_settle.2 ?_⟩
      exact fun hyes => hroom (hadmits.1 hyes)
  · rw [if_neg hpos, Arena.claim_of_not_pos hpos]
    exact Load.ensures_pure.2 ⟨Arena.admits_of_not_pos hpos, h⟩

theorem copyFromFile (h : m.Holds (f.at s.fileOffset) a grants) (hb : a.Bounded)
    (howns : 0 < s.fileSize → a.Owns s.address s.fileSize) :
    Ensures handler (Load.copyFromFile s)
      (Hinges (0 < s.fileSize → grants s.fileSize = true ∧ f.Supplies s.fileOffset s.fileSize)
        fun _ m' => ∃ p, m'.Holds (f.at p) (a.copy f.content s) grants) m := by
  unfold Load.copyFromFile
  by_cases hpos : 0 < s.fileSize
  · rw [if_pos hpos, Load.ensures_note_bind]
    unfold Load.scratch
    rw [bind_assoc, Load.ensures_ask_bind]
    refine ⟨_, h.scratch s.fileSize, ?_⟩
    dsimp only
    cases hgrant : grants s.fileSize with
    | false =>
      rw [if_neg Bool.false_ne_true, Load.ensures_throw_bind]
      exact fun hyes => Bool.false_ne_true (hyes hpos).1
    | true =>
      rw [if_pos rfl, pure_bind, Load.ensures_note_bind]
      refine (Load.ensures_reporting.2 (h.readExact_hinges s.fileSize)).bind
        (fun bs m₁ hbytes => ?_) fun e m₁ hno hyes => hno (hyes hpos).2
      obtain ⟨hsupplies, rfl, hlength, h₁⟩ := hbytes
      have hown : a.Owns s.address ((f.content.drop s.fileOffset).take s.fileSize).length := by
        rw [hlength]
        exact howns hpos
      obtain ⟨m', hreply, hm'⟩ := h₁.write (Arena.write_of_owns hb hown)
      rw [Load.ensures_note_bind]
      refine Load.ensures_ask_bind.2 ⟨_, hreply, Load.ensures_settle.2 ?_⟩
      exact ⟨fun _ => ⟨rfl, hsupplies⟩, _, hm'⟩
  · rw [if_neg hpos, Arena.copy_of_not_pos hpos]
    exact Load.ensures_pure.2 ⟨fun hyes => absurd hyes hpos, s.fileOffset, h⟩

theorem clearRest (h : m.Holds f a grants) (hb : a.Bounded) (hs : s.Sound)
    (howns : s.fileSize < s.memorySize →
      a.Owns (s.address + s.fileSize) (s.memorySize - s.fileSize)) :
    Ensures handler (Load.clearRest s)
      (Hinges True fun _ m' => m'.Holds f (a.wipe s) grants) m := by
  unfold Load.clearRest
  rw [Segment.zeroFill?_eq hs.size_le, Load.ensures_expect_bind]
  by_cases hpos : 0 < s.memorySize - s.fileSize
  · have hstart : s.address + s.fileSize < wordLimit := by
      have hsize := hs.size_le
      have hend := hs.memory_end
      omega
    rw [if_pos hpos, Address.add?_eq_some_iff.2 ⟨hstart, rfl⟩, Load.ensures_expect_bind,
      Load.ensures_note_bind]
    obtain ⟨m', hreply, hm'⟩ := h.zero (Arena.zero_of_owns hb (howns (by omega)))
    refine Load.ensures_ask_bind.2 ⟨_, hreply, Load.ensures_settle.2 ⟨trivial, ?_⟩⟩
    rw [Arena.wipe_of_pos hpos]
    exact hm'
  · rw [if_neg hpos, Arena.wipe_of_not_pos hpos]
    exact Load.ensures_pure.2 ⟨trivial, h⟩

/-- Once the pages of a segment are reserved and the file stands at its offset, all depends on the
bytes from the file. -/
theorem fillPages (h : m.Holds (f.at s.fileOffset) (a.claim s) grants) (hb : (a.claim s).Bounded)
    (hs : s.Sound) :
    Ensures handler (Load.copyFromFile s >>= fun _ => Load.clearRest s)
      (Hinges (0 < s.fileSize → grants s.fileSize = true ∧ f.Supplies s.fileOffset s.fileSize)
        fun _ m' => ∃ p, m'.Holds (f.at p) (a.place f.content s) grants) m := by
  have hcopied : ((a.claim s).copy f.content s).Bounded := ⟨hb.window, hb.ranges⟩
  have hcopy := h.copyFromFile hb (Arena.owns_claim_file hs)
  refine hcopy.hinges_bind (and_iff_left trivial).symm fun _ m₁ _ ⟨p, h₁⟩ => ?_
  refine (h₁.clearRest hcopied hs Arena.owns_claim_rest).hinges_imp fun _ m₂ h₂ => ⟨p, ?_⟩
  rw [Arena.place_eq]
  exact h₂

/-- **Placing a segment** succeeds exactly if there is room for it and the file gives its bytes. -/
theorem placeSegment (h : m.Holds (f.at position) a grants) (hb : a.Bounded) (hs : s.Sound) :
    Ensures handler (Load.placeSegment s)
      (Hinges (a.Admits s ∧ f.Provides grants s) fun _ m' =>
        ∃ p, m'.Holds (f.at p) (a.place f.content s) grants) m := by
  rw [Load.placeSegment_eq (Segment.pageCount?_eq hs.memory_end), Load.ensures_note_bind]
  by_cases hseek : f.traits.failSeek = some s.fileOffset
  · obtain ⟨m₁, hreply⟩ := h.seek_fails hseek
    refine Load.ensures_ask_bind.2 ⟨_, hreply, Load.ensures_settleIo_bind.2 ?_⟩
    exact fun hyes => hyes.2.seek hseek
  · obtain ⟨m₁, hreply, h₁⟩ := h.seek hseek
    refine Load.ensures_ask_bind.2 ⟨_, hreply, Load.ensures_settleIo_bind.2 ?_⟩
    have hprovides : f.Provides grants s ↔
        (0 < s.fileSize → grants s.fileSize = true ∧ f.Supplies s.fileOffset s.fileSize) :=
      ⟨fun hyes => hyes.bytes, fun hbytes => ⟨hseek, hbytes⟩⟩
    refine (h₁.reservePages hb).hinges_bind (and_congr_right' hprovides) fun _ m₂ hadmits h₂ => ?_
    exact h₂.fillPages (hb.claim hadmits) hs

/-! ## Segments and tables -/

/-- **Placing segments one after another** succeeds exactly if there is room for each of them in
turn and the file gives the bytes of each. -/
theorem placeAll {segments : List Segment} (h : m.Holds (f.at position) a grants)
    (hb : a.Bounded) (hs : ∀ s ∈ segments, s.Sound) :
    Ensures handler (Load.placeAll segments)
      (Hinges (Arena.AdmitsAll f.content a segments ∧ ∀ s ∈ segments, f.Provides grants s)
        fun _ m' => ∃ p, m'.Holds (f.at p) (a.placeAll f.content segments) grants) m := by
  induction segments generalizing a m position with
  | nil => exact Load.ensures_pure.2 ⟨⟨trivial, fun s hs => by cases hs⟩, position, h⟩
  | cons s rest ih =>
    obtain ⟨hsound, hrest⟩ := List.forall_mem_cons.1 hs
    have hwhole : (Arena.AdmitsAll f.content a (s :: rest) ∧
          ∀ t ∈ s :: rest, f.Provides grants t) ↔
        (a.Admits s ∧ f.Provides grants s) ∧
          Arena.AdmitsAll f.content (a.place f.content s) rest ∧
            ∀ t ∈ rest, f.Provides grants t := by
      rw [List.forall_mem_cons]
      exact and_and_and_comm
    unfold Load.placeAll
    refine (h.placeSegment hb hsound).hinges_bind hwhole fun _ m₁ hyes hplaced => ?_
    obtain ⟨p, h₁⟩ := hplaced
    rw [Load.ensures_note_bind]
    exact ih h₁ (hb.place hyes.1) hrest

/-- **Placing a table** succeeds exactly if nothing is to be said against it, there is room for its
segments one after another, and the file gives the bytes of each. -/
theorem placeTable {t : Table} (h : m.Holds (f.at position) a grants) (hb : a.Bounded) :
    Ensures handler (Load.placeTable t)
      (Hinges ((0 < t.count ∧ Objection.NoneHolds (Plan.objections t.segments)) ∧
          Arena.AdmitsAll f.content a t.segments ∧ ∀ s ∈ t.segments, f.Provides grants s)
        fun n m' => n = t.segments.length ∧
          ∃ p, m'.Holds (f.at p) (a.placeAll f.content t.segments) grants) m := by
  unfold Load.placeTable Load.makePlan
  rw [bind_assoc, Load.ensures_notes_bind, Load.ensures_check_bind]
  rcases Plan.ofTable_cases t with ⟨hzero, heq⟩ | ⟨hpos, hnone, heq⟩ | ⟨e, hpos, hdecides, heq⟩
  · rw [heq]
    exact fun hyes => Nat.ne_of_gt hyes.1.1 hzero
  · rw [heq]
    unfold Load.placePlan
    dsimp only
    rw [Load.ensures_note_bind]
    have hplaced := h.placeAll hb (Plan.noneHolds_objections.1 hnone).1
    refine hplaced.bind (fun _ m' hyes => ?_) fun e m' hno hyes => hno hyes.2
    exact Load.ensures_pure.2 ⟨⟨⟨hpos, hnone⟩, hyes.1⟩, rfl, hyes.2⟩
  · rw [heq]
    exact fun hyes => hdecides.not_noneHolds hyes.1.2

end Holds

end Machine

end Host

end ElfBoot
