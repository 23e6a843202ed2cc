import ElfBoot.Proofs.Load.Protocol

/-!
# Where a load touches memory

Whatever its collaborators do, a load asks only for whole pages, and changes only bytes that lie in
the pages it was granted last, for the segment it is placing.

* `Event.target?`, `Backed` — the bytes that a call changes, and that pages for them were granted.
* `Contained` — what this says of all calls in a list of events.
* `Segment.Talk.contained`, `ImageTalk.contained` — conversations are contained.
* `Load.image_protocol` — the order of calls, their end and their reach, in any run of a load.
-/

set_option autoImplicit false

namespace ElfBoot

/-- The bytes of memory that a call changes: where they start, and how many they are. -/
def Event.target? (ev : Event) : Option (Nat × Nat) :=
  match ev.call with
  | .write address bytes => some (address, bytes.length)
  | .zero address len => some (address, len)
  | _ => none

/-- A reservation that holds `len` bytes from `address` on was granted, and since then no other
segment was begun, which would take a seek. -/
def Backed (before : List Event) (address len : Nat) : Prop :=
  ∃ pre base pages post, before = pre ++ ⟨.reserve base pages, .ok ()⟩ :: post ∧
    base ≤ address ∧ address + len ≤ base + pages * pageSize ∧
    ∀ ev ∈ post, ∀ offset, ev.call ≠ .seek offset

/-- Reservations start at pages, and every change of memory is backed by one. -/
structure Contained (es : List Event) : Prop where
  aligned : ∀ ev ∈ es, ∀ address pages, ev.call = .reserve address pages →
    address % pageSize = 0
  backed : ∀ pre ev post, es = pre ++ ev :: post → ∀ address len,
    ev.target? = some (address, len) → Backed pre address len

/-- The call is none on the memory. -/
def Event.Plain (ev : Event) : Prop :=
  ev.target? = none ∧ ∀ address pages, ev.call ≠ .reserve address pages

theorem contained_of_plain {es : List Event} (h : ∀ ev ∈ es, ev.Plain) : Contained es := by
  constructor
  case aligned =>
    intro ev hev address pages hcall
    exact absurd hcall ((h ev hev).2 address pages)
  case backed =>
    rintro pre ev post rfl address len ht
    rw [(h ev (List.mem_append_right _ List.mem_cons_self)).1] at ht
    cases ht

theorem contained_nil : Contained [] := contained_of_plain fun _ hev => by cases hev

theorem contained_singleton {ev : Event} (h : ev.Plain) : Contained [ev] :=
  contained_of_plain (List.forall_mem_singleton.2 h)

theorem Event.plain_seek (offset : Nat) : Event.Plain ⟨.seek offset, .ok ()⟩ :=
  ⟨rfl, fun _ _ hno => by cases hno⟩

theorem Event.plain_scratch (n : Nat) : Event.Plain ⟨.scratch n, true⟩ :=
  ⟨rfl, fun _ _ hno => by cases hno⟩

theorem Contained.append {es es' : List Event} (h : Contained es) (h' : Contained es') :
    Contained (es ++ es') := by
  constructor
  case aligned =>
    intro ev hev
    rcases List.mem_append.1 hev with hl | hr
    · exact h.aligned ev hl
    · exact h'.aligned ev hr
  case backed =>
    intro pre ev post heq address len ht
    rcases List.append_eq_append_iff.1 heq with ⟨mid, rfl, hes'⟩ | ⟨mid, hes, hmid⟩
    · obtain ⟨front, base, pages, since, rfl, hlo, hhi, hseek⟩ :=
        h'.backed mid ev post hes' address len ht
      exact ⟨es ++ front, base, pages, since, (List.append_assoc _ _ _).symm, hlo, hhi, hseek⟩
    · cases mid with
      | nil =>
        rw [List.append_nil] at hes
        subst hes
        obtain ⟨front, base, pages, since, hno, -⟩ :=
          h'.backed [] ev post hmid.symm address len ht
        simp at hno
      | cons first rest =>
        cases hmid
        exact h.backed pre ev rest hes address len ht

theorem Fills.plain {n : Nat} {bs : List UInt8} {reads : List Event} (h : Fills n bs reads) :
    ∀ ev ∈ reads, ev.Plain ∧ ∀ offset, ev.call ≠ .seek offset := by
  induction h with
  | done =>
    intro ev hev
    cases hev
  | more _ _ ih =>
    intro ev hev
    rcases List.mem_cons.1 hev with rfl | hmem
    · refine ⟨⟨rfl, fun address pages hcall => ?_⟩, fun offset hcall => ?_⟩
      · cases hcall
      · cases hcall
    · exact ih ev hmem

/-- After a reservation, events within it are backed until the next seek. -/
theorem backed_of_reserve {base pages : Nat} {rest : List Event}
    (hseek : ∀ ev ∈ rest, ∀ offset, ev.call ≠ .seek offset)
    (hwithin : ∀ ev ∈ rest, ∀ address len, ev.target? = some (address, len) →
      base ≤ address ∧ address + len ≤ base + pages * pageSize)
    (pre : List Event) (ev : Event) (post : List Event)
    (heq : ⟨.reserve base pages, .ok ()⟩ :: rest = pre ++ ev :: post) (address len : Nat)
    (ht : ev.target? = some (address, len)) : Backed pre address len := by
  cases pre with
  | nil =>
    cases heq
    cases ht
  | cons first pre =>
    cases heq
    obtain ⟨hlo, hhi⟩ := hwithin ev (List.mem_append_right _ List.mem_cons_self) address len ht
    exact ⟨[], base, pages, pre, rfl, hlo, hhi,
      fun x hx => hseek x (List.mem_append_left _ hx)⟩

/-! ## Conversations are contained -/

/-- The call neither begins a segment nor reserves pages, and changes bytes of the segment only. -/
structure Segment.Keeps (s : Segment) (ev : Event) : Prop where
  no_seek : ∀ offset, ev.call ≠ .seek offset
  no_reserve : ∀ address pages, ev.call ≠ .reserve address pages
  within : ∀ address len, ev.target? = some (address, len) →
    s.address ≤ address ∧ address + len ≤ s.address + s.memorySize

theorem Segment.keeps_of_plain {s : Segment} {ev : Event} (h : ev.Plain)
    (hseek : ∀ offset, ev.call ≠ .seek offset) : s.Keeps ev := by
  refine ⟨hseek, h.2, fun address len ht => ?_⟩
  rw [h.1] at ht
  cases ht

theorem Segment.Copying.keeps {s : Segment} {es : List Event} (h : s.Copying es)
    (hs : s.Sound) : ∀ ev ∈ es, s.Keeps ev := by
  unfold Segment.Copying at h
  by_cases hpos : 0 < s.fileSize
  · rw [if_pos hpos] at h
    obtain ⟨bytes, reads, hfills, rfl⟩ := h
    intro ev hev
    rcases List.mem_cons.1 hev with rfl | hev
    · refine Segment.keeps_of_plain (Event.plain_scratch s.fileSize) fun _ hno => ?_
      cases hno
    rcases List.mem_append.1 hev with hread | hwrite
    · obtain ⟨hplain, hseek⟩ := hfills.plain ev hread
      exact Segment.keeps_of_plain hplain hseek
    · rw [List.mem_singleton] at hwrite
      subst hwrite
      refine ⟨fun _ hno => ?_, fun _ _ hno => ?_, fun address len ht => ?_⟩
      · cases hno
      · cases hno
      · cases ht
        have hsize := hs.size_le
        rw [hfills.length_eq]
        omega
  · rw [if_neg hpos] at h
    subst h
    intro ev hev
    cases hev

theorem Segment.keeps_clearing {s : Segment} (hs : s.Sound) : ∀ ev ∈ s.clearing, s.Keeps ev := by
  unfold Segment.clearing
  by_cases hpos : 0 < s.memorySize - s.fileSize
  · rw [if_pos hpos]
    intro ev hev
    rw [List.mem_singleton] at hev
    subst hev
    refine ⟨fun _ hno => ?_, fun _ _ hno => ?_, fun address len ht => ?_⟩
    · cases hno
    · cases hno
    · cases ht
      have hsize := hs.size_le
      omega
  · rw [if_neg hpos]
    intro ev hev
    cases hev

/-- A segment without pages has neither bytes to copy nor bytes to clear. -/
theorem Segment.no_bytes {s : Segment} {es : List Event} (h : s.Copying es) (hs : s.Sound)
    (hpages : ¬ 0 < s.pageCount) : es = [] ∧ s.clearing = [] := by
  have hmem : ¬ 0 < s.memorySize := fun hpos => hpages (Segment.pageCount_pos hpos)
  have hsize := hs.size_le
  unfold Segment.Copying at h
  unfold Segment.clearing
  rw [if_neg (by omega)] at h
  exact ⟨h, if_neg (by omega)⟩

/-- **Placing a segment** is contained in the pages of the segment. -/
theorem Segment.Talk.contained {s : Segment} {es : List Event} (h : s.Talk es)
    (hs : s.Sound) : Contained es := by
  obtain ⟨copying, hcopying, rfl⟩ := h
  refine (contained_singleton (Event.plain_seek s.fileOffset)).append ?_
  unfold Segment.reserving
  by_cases hpages : 0 < s.pageCount
  · have hkeeps : ∀ ev ∈ copying ++ s.clearing, s.Keeps ev := by
      intro ev hev
      rcases List.mem_append.1 hev with hl | hr
      · exact hcopying.keeps hs ev hl
      · exact Segment.keeps_clearing hs ev hr
    obtain ⟨hbase, hlimit⟩ := s.le_limit_pages
    rw [if_pos hpages]
    constructor
    case aligned =>
      intro ev hev address pages hcall
      rcases List.mem_cons.1 hev with rfl | hrest
      · cases hcall
        exact Nat.mul_mod_left _ _
      · exact absurd hcall ((hkeeps ev hrest).no_reserve address pages)
    case backed =>
      refine backed_of_reserve (fun ev hev => (hkeeps ev hev).no_seek) ?_
      intro ev hev address len ht
      obtain ⟨hlo, hhi⟩ := (hkeeps ev hev).within address len ht
      exact ⟨Nat.le_trans hbase hlo, Nat.le_trans hhi hlimit⟩
  · obtain ⟨rfl, hclearing⟩ := Segment.no_bytes hcopying hs hpages
    rw [if_neg hpages, hclearing]
    exact contained_nil

theorem PlacingTalk.contained {segments : List Segment} {es : List Event}
    (h : PlacingTalk segments es) (hs : ∀ s ∈ segments, s.Sound) : Contained es := by
  induction h with
  | nil => exact contained_nil
  | cons htalk _ ih =>
    obtain ⟨hsound, hrest⟩ := List.forall_mem_cons.1 hs
    exact (htalk.contained hsound).append (ih hrest)

theorem Unless.contained {os : List Objection} {go : List Event → Option LoadError → Prop}
    {es : List Event} {refusal : Option LoadError} (h : Unless os go es refusal)
    (hgo : Objection.NoneHolds os → go es refusal → Contained es) : Contained es := by
  rcases h with ⟨hnone, hes⟩ | ⟨rfl, -⟩
  · exact hgo hnone hes
  · exact contained_nil

/-- Two calls that are not on the memory, and reads, in front of a contained conversation. -/
theorem Contained.after_fill {x y : Event} {n : Nat} {bs : List UInt8} {reads rest : List Event}
    (h : Contained rest) (hx : x.Plain) (hy : y.Plain) (hfills : Fills n bs reads) :
    Contained (x :: y :: (reads ++ rest)) := by
  have hfront : Contained (x :: y :: reads) := by
    refine contained_of_plain fun ev hev => ?_
    rcases List.mem_cons.1 hev with rfl | hev
    · exact hx
    rcases List.mem_cons.1 hev with rfl | hev
    · exact hy
    · exact (hfills.plain ev hev).1
  exact hfront.append h

theorem TableTalk.contained {segments : List Segment} {es : List Event}
    {refusal : Option LoadError} (h : TableTalk segments es refusal) : Contained es := by
  refine Unless.contained h fun hnone htalk => ?_
  obtain ⟨placing, hplacing, rfl, -⟩ := htalk
  refine (hplacing.contained (Plan.noneHolds_objections.1 hnone).1).append ?_
  exact contained_singleton ⟨rfl, fun _ _ hno => by cases hno⟩

theorem HeaderTalk.contained {w : Width} {header : List UInt8} {es : List Event}
    {refusal : Option LoadError} (h : HeaderTalk w header es refusal) : Contained es := by
  unfold HeaderTalk at h
  refine Unless.contained h fun _ htalk => ?_
  obtain ⟨table, reads, rest, hfills, rfl, hrest⟩ := htalk
  exact hrest.contained.after_fill (Event.plain_seek _) (Event.plain_scratch _) hfills

theorem IdentityTalk.contained {ident : List UInt8} {es : List Event}
    {refusal : Option LoadError} (h : IdentityTalk ident es refusal) : Contained es := by
  unfold IdentityTalk at h
  refine Unless.contained h fun _ htalk => ?_
  obtain ⟨header, reads, rest, hfills, rfl, hrest⟩ := htalk
  exact hrest.contained.after_fill (Event.plain_seek _) (Event.plain_scratch _) hfills

/-- **The conversation of a load** is contained. -/
theorem ImageTalk.contained {path : String} {es : List Event} {refusal : Option LoadError}
    (h : ImageTalk path es refusal) : Contained es := by
  obtain ⟨ident, reads, rest, hfills, rfl, hrest⟩ := h
  refine hrest.contained.after_fill ⟨rfl, fun _ _ hno => ?_⟩ (Event.plain_seek _) hfills
  cases hno

/-- A run makes the calls of its conversation, so it reaches no further. -/
theorem Ends.contained {σ α : Type} {h : Handler σ} {before talk : List Event}
    {result : Except LoadError α} {run : Run σ (Except LoadError α)}
    (hends : Ends h before talk result run) (htalk : Contained talk) : Contained run.events := by
  constructor
  case aligned =>
    intro ev hev address pages hcall
    obtain ⟨pre, post, heq⟩ := List.append_of_mem hev
    obtain ⟨ev', post', ht, hsame⟩ := hends.exists_talk heq
    refine htalk.aligned ev' ?_ address pages (hsame.trans hcall)
    rw [ht]
    exact List.mem_append_right _ List.mem_cons_self
  case backed =>
    intro pre ev post heq address len hev
    obtain ⟨ev', post', ht, hsame⟩ := hends.exists_talk heq
    refine htalk.backed pre ev' post' ht address len ?_
    unfold Event.target? at hev ⊢
    rw [hsame]
    exact hev

/-- **The calls of a load**, with collaborators of any kind: they are those of its conversation up
to the first one that fails, which is the last one and gives the load its error; and the changes of
memory are contained. -/
theorem Load.image_protocol {σ : Type} (h : Handler σ) (s : σ) (path : String)
    (listing : Bool) :
    (∃ talk result, ImageTalk path talk (errorOf? result) ∧
      Ends h [] talk result (Program.run h (image path listing).run s)) ∧
    (∀ pre ev post e, (Program.run h (image path listing).run s).events = pre ++ ev :: post →
      ev.failure? pre = some e →
        post = [] ∧ (Program.run h (image path listing).run s).outcome = .done (.error e)) ∧
    Contained (Program.run h (image path listing).run s).events := by
  obtain ⟨talk, result, htalk, hsmooth, hends⟩ := conforms_image path listing σ h s
  refine ⟨⟨talk, result, htalk, hends⟩, ?_, hends.contained htalk.contained⟩
  intro pre ev post e heq hfail
  exact hends.stops hsmooth heq hfail

end ElfBoot
