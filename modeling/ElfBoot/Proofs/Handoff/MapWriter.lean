import ElfBoot.Proofs.Handoff.Coalesce

/-!
# What a map writer writes

A writer with room for `k` regions writes the first `k` regions of the merged map and counts the
rest.  Once the buffer is full a region can still be merged into the last one written, but none can
after a region was dropped, since that one lies in between.

* `MapWriter.finish_store`, `MapWriter.continues?_eq`, `MapWriter.finish_setLast` — one operation on
  the buffer.
* `MapWriter.Tracks` — the regions pushed so far, split into those written and those dropped.
* `MapWriter.Tracks.push` — one region; `MapWriter.Tracks.pushAll` — a list of them.
* `MapWriter.Tracks.finish_eq_take` — what is written is the front of the merged map.
* `MapWriter.pushAll_truncates` — the writer over any orderly map.
-/

set_option autoImplicit false

namespace ElfBoot.Handoff

theorem Region.end?_eq {r : Region} (h : r.limit < wordLimit) : r.end? = some r.limit := by
  unfold limit at h
  simp only [end?, Option.bind_eq_bind, Option.bind_eq_some_iff, Address.mul?_eq_some_iff,
    Address.add?_eq_some_iff]
  exact ⟨_, ⟨by omega, rfl⟩, h, rfl⟩

namespace MapWriter

/-! ## One operation on the buffer -/

section Operations

variable {w w' : MapWriter} {last r : Region}

theorem last?_eq_getLast? (h : w.used ≤ w.buffer.length) : w.last? = w.finish.getLast? := by
  rw [finish, last?, List.getLast?_eq_getElem?, List.length_take, Nat.min_eq_left h]
  by_cases hz : w.used = 0
  · simp [hz]
  · rw [if_neg hz, List.getElem?_take_of_lt (by omega)]

theorem finish_store (r : Region) (h : w.used < w.buffer.length) :
    (w.store r).finish = w.finish ++ [r] := by
  rw [store, if_pos h]
  show (w.buffer.set w.used r).take (w.used + 1) = w.buffer.take w.used ++ [r]
  rw [List.take_add_one, List.take_set_of_le (Nat.le_refl _)]
  simp [h]

/-- Whether a region continues one that ends at an address. -/
theorem continues?_eq (h : last.limit < wordLimit) : continues? last r = some (last.adjoins r) := by
  rw [continues?, Region.end?_eq h, Region.adjoins, Bool.and_comm last.kind.isAvailable]
  cases r.kind.isAvailable && last.kind.isAvailable <;> rfl

theorem extendLast?_eq (w : MapWriter) {pages : UInt64}
    (h : last.pageCount.toNat + pages.toNat < wordLimit) :
    w.extendLast? last pages =
      some { w with buffer := w.buffer.set (w.used - 1) (last.extend pages) } := by
  have hcount : UInt64.ofNat (last.pageCount.toNat + pages.toNat) = last.pageCount + pages := by
    simp [UInt64.ofNat_add]
  rw [extendLast?, Address.add?_eq_some_iff.2 ⟨h, rfl⟩, Option.map_some, hcount]
  rfl

theorem finish_setLast (h : w.used ≤ w.buffer.length) {done : List Region}
    (hfinish : w.finish = done ++ [last]) (r : Region) :
    finish { w with buffer := w.buffer.set (w.used - 1) r } = done ++ [r] := by
  have hused : w.used = done.length + 1 := by
    have hlength := congrArg List.length hfinish
    rw [finish, List.length_take, List.length_append, List.length_singleton] at hlength
    omega
  rw [finish] at hfinish
  show (w.buffer.set (w.used - 1) r).take w.used = done ++ [r]
  rw [List.take_set, hfinish, hused, Nat.add_sub_cancel]
  simp

theorem pushAll_cons (hpush : w.push r = some w') (rest : List Region) :
    w.pushAll (r :: rest) = w'.pushAll rest := by
  rw [pushAll, List.foldlM_cons, hpush]
  rfl

end Operations

/-! ## Rising regions -/

/-- How a writer stands after some regions with pages were pushed: those in `fit` are written,
merged, and those in `lost` were dropped. -/
structure Tracks (buffer fit lost : List Region) (w : MapWriter) : Prop where
  length_eq : w.buffer.length = buffer.length
  used_le : w.used ≤ buffer.length
  untouched : w.buffer.drop w.used = buffer.drop w.used
  finish_eq : w.finish = coalesce fit
  dropped_eq : w.dropped = lost.length
  full : lost ≠ [] → w.used = buffer.length
  refused : ∀ r ∈ lost.head?, buffer.length < (coalesce (fit ++ [r])).length

variable {buffer fit lost : List Region} {w : MapWriter} {r : Region}

theorem tracks_start (buffer : List Region) : (start buffer).Tracks buffer [] [] where
  length_eq := rfl
  used_le := Nat.zero_le _
  untouched := rfl
  finish_eq := by simp [finish, start, coalesce]
  dropped_eq := rfl
  full := by simp
  refused := by simp

namespace Tracks

theorem used_eq (h : w.Tracks buffer fit lost) : w.used = (coalesce fit).length := by
  have hused := h.used_le
  rw [← h.finish_eq, finish, List.length_take, h.length_eq]
  omega

theorem last?_eq (h : w.Tracks buffer fit lost) : w.last? = (coalesce fit).getLast? := by
  have hused := h.used_le
  rw [← h.length_eq] at hused
  rw [last?_eq_getLast? hused, h.finish_eq]

/-- A region that adjoins none is stored, or is the first or a further one that is dropped. -/
theorem store (h : w.Tracks buffer fit lost)
    (hstand : lost = [] → coalesce (fit ++ [r]) = coalesce fit ++ [r]) :
    (lost = [] ∧ (w.store r).Tracks buffer (fit ++ [r]) []) ∨
      (w.store r).Tracks buffer fit (lost ++ [r]) := by
  have hlength := h.length_eq
  by_cases hroom : w.used < w.buffer.length
  · have hafter := finish_store r hroom
    rw [MapWriter.store, if_pos hroom] at hafter ⊢
    have hlost : lost = [] := by
      by_contra hne
      have := h.full hne
      omega
    refine .inl ⟨hlost, ?_⟩
    constructor
    case length_eq => simpa using hlength
    case used_le => show w.used + 1 ≤ buffer.length; omega
    case untouched =>
      show (w.buffer.set w.used r).drop (w.used + 1) = buffer.drop (w.used + 1)
      rw [List.drop_set_of_lt (by omega), ← List.drop_drop, ← List.drop_drop, h.untouched]
    case finish_eq =>
      rw [hstand hlost, ← h.finish_eq]
      exact hafter
    case dropped_eq => simpa [hlost] using h.dropped_eq
    case full => simp
    case refused => simp
  · rw [MapWriter.store, if_neg hroom]
    have hused : w.used = buffer.length := by
      have := h.used_le
      omega
    refine .inr ⟨h.length_eq, h.used_le, h.untouched, h.finish_eq, ?_, fun _ => hused, ?_⟩
    · simp [h.dropped_eq]
    · intro q hq
      cases lost with
      | nil =>
        obtain rfl : r = q := by simpa using hq
        rw [hstand rfl, List.length_append, ← h.used_eq, hused]
        simp
      | cons d lost => exact h.refused q (by simpa using hq)

/-- A region that continues the last one written makes it longer. -/
theorem extendLast (h : w.Tracks buffer fit []) {done : List Region} {last : Region}
    (hfit : coalesce fit = done ++ [last])
    (hnext : coalesce (fit ++ [r]) = done ++ [last.extend r.pageCount])
    (hpages : last.pageCount.toNat + r.pageCount.toNat < wordLimit) :
    ∃ w', w.extendLast? last r.pageCount = some w' ∧ w'.Tracks buffer (fit ++ [r]) [] := by
  have hused := h.used_eq
  have hle := h.used_le
  have hlength := h.length_eq
  rw [hfit, List.length_append, List.length_singleton] at hused
  refine ⟨_, extendLast?_eq w hpages, ?_⟩
  constructor
  case length_eq => simpa using hlength
  case used_le => exact hle
  case untouched =>
    show (w.buffer.set (w.used - 1) _).drop w.used = buffer.drop w.used
    rw [List.drop_set_of_lt (by omega), h.untouched]
  case finish_eq =>
    rw [hnext]
    exact finish_setLast (hlength ▸ hle) (h.finish_eq.trans hfit) _
  case dropped_eq => exact h.dropped_eq
  case full => simp
  case refused => simp

/-- **One region** is written, stored or merged, as long as none was dropped; otherwise it is
dropped too. -/
theorem push (h : w.Tracks buffer fit lost) (hrise : Rising (fit ++ lost ++ [r])) :
    ∃ w', w.push r = some w' ∧
      ((lost = [] ∧ w'.Tracks buffer (fit ++ [r]) []) ∨ w'.Tracks buffer fit (lost ++ [r])) := by
  have hr : r.pageCount ≠ 0 := hrise.paged r (by simp)
  unfold MapWriter.push
  rw [if_neg hr, h.last?_eq]
  rcases List.eq_nil_or_concat fit with rfl | ⟨front, a, rfl⟩
  · refine ⟨w.store r, rfl, h.store fun _ => ?_⟩
    simp [coalesce, hr, joinFront]
  rw [List.concat_eq_append] at *
  obtain ⟨done, last, hfit, hkind, hlimit, hnext⟩ :=
    hrise.of_append_left.of_append_left.coalesce_concat
  have hnext := hnext r hr
  have hbefore : last.limit ≤ r.base.toNat := by
    rw [hlimit]
    exact (List.pairwise_append.1 hrise.apart).2.2 a (by simp) r (by simp)
  rw [hfit, List.getLast?_concat]
  dsimp only
  have hend : last.limit < wordLimit := Nat.lt_of_le_of_lt hbefore r.base.toNat_lt
  have hsame : last.adjoins r = a.adjoins r := by simp only [Region.adjoins, hkind, hlimit]
  rw [continues?_eq hend, hsame, Option.bind_eq_bind, Option.bind_some]
  by_cases hadj : a.adjoins r = true
  · rw [if_pos hadj]
    obtain ⟨-, -, hmeet⟩ := Region.adjoins_iff.1 hadj
    -- a dropped region would lie between the two
    have hlost : lost = [] := by
      cases lost with
      | nil => rfl
      | cons d lost =>
        have hd := Region.base_lt_limit (hrise.paged d (by simp))
        have hpairs := List.pairwise_append.1 hrise.apart
        have had := (List.pairwise_append.1 hpairs.1).2.2 a (by simp) d (by simp)
        have hdr := hpairs.2.2 d (by simp) r (by simp)
        omega
    subst hlost
    rw [if_pos hadj] at hnext
    have hpages : last.pageCount.toNat + r.pageCount.toNat < wordLimit := by
      rw [← Region.pageCount_extend (hlimit.trans hmeet) (hrise.within r (by simp))]
      exact UInt64.toNat_lt _
    obtain ⟨w', hw', htracks⟩ := h.extendLast hfit hnext hpages
    exact ⟨w', hw', .inl ⟨rfl, htracks⟩⟩
  · rw [if_neg hadj]
    refine ⟨w.store r, rfl, h.store fun _ => ?_⟩
    rw [hnext, if_neg hadj, hfit]
    simp

/-- **Regions with pages, one after another**: some first ones are written and the others
dropped. -/
theorem pushAll {regions : List Region} (h : w.Tracks buffer fit lost)
    (hrise : Rising (fit ++ lost ++ regions)) :
    ∃ w' fit' lost', w.pushAll regions = some w' ∧ fit ++ lost ++ regions = fit' ++ lost' ∧
      w'.Tracks buffer fit' lost' := by
  induction regions generalizing w fit lost with
  | nil => exact ⟨w, fit, lost, rfl, by simp, h⟩
  | cons r rest ih =>
    rw [List.append_cons] at hrise ⊢
    obtain ⟨w', hpush, hcases⟩ := h.push hrise.of_append_left
    rw [pushAll_cons hpush]
    rcases hcases with ⟨rfl, htracks⟩ | htracks
    · simpa using ih htracks (by simpa using hrise)
    · simpa using ih htracks (by simpa using hrise)

/-- What is written is the front of the merged map, which is longer if regions were dropped. -/
theorem finish_eq_take (h : w.Tracks buffer fit lost) (hrise : Rising (fit ++ lost)) :
    w.finish = (coalesce (fit ++ lost)).take buffer.length ∧
      (lost = [] ↔ (coalesce (fit ++ lost)).length ≤ buffer.length) := by
  have hused := h.used_eq
  have hle := h.used_le
  rw [h.finish_eq]
  cases lost with
  | nil =>
    rw [List.append_nil, List.take_of_length_le (by omega)]
    exact ⟨rfl, by simp; omega⟩
  | cons d lost =>
    have hfull := h.full (by simp)
    have hrefused := h.refused d (by simp)
    have hd : d.pageCount ≠ 0 := hrise.paged d (by simp)
    -- were the first dropped region to adjoin, it would not have made the merged map longer
    have hno : ∀ a ∈ fit.getLast?, ∀ q ∈ (d :: lost).head?, a.adjoins q = false := by
      intro a ha q hq
      obtain ⟨front, rfl⟩ := List.getLast?_eq_some_iff.1 ha
      obtain rfl : d = q := by simpa using hq
      obtain ⟨done, last, hfit, -, -, hnext⟩ := hrise.of_append_left.coalesce_concat
      have hnext := hnext d hd
      by_contra hadj
      rw [if_pos (by simpa using hadj)] at hnext
      rw [hfit] at hused
      rw [hnext] at hrefused
      simp at hused hrefused
      omega
    obtain ⟨n, tail, hlost⟩ := exists_coalesce_cons hd lost
    rw [coalesce_append hrise.of_append_left.paged hrise.of_append_right.paged hno, hlost]
    constructor
    · rw [List.take_left' (by omega)]
    · simp
      omega

end Tracks

/-- Empty regions leave no trace. -/
theorem pushAll_filter (w : MapWriter) (regions : List Region) :
    w.pushAll (regions.filter fun r => r.pageCount != 0) = w.pushAll regions := by
  induction regions generalizing w with
  | nil => rfl
  | cons r rest ih =>
    unfold pushAll at ih ⊢
    by_cases hr : r.pageCount = 0
    · have hsame : w.push r = some w := if_pos hr
      rw [List.filter_cons_of_neg (by simp [hr]), ih, List.foldlM_cons, hsame]
      rfl
    · rw [List.filter_cons_of_pos (by simp [hr]), List.foldlM_cons, List.foldlM_cons]
      cases w.push r with
      | none => rfl
      | some w' => exact ih w'

/-- **A writer over an orderly map**: it does not break down, and ends with its regions split into
those that are written and those that were dropped. -/
theorem pushAll_tracks {regions : List Region} (h : Orderly regions) (buffer : List Region) :
    ∃ w fit lost, (start buffer).pushAll regions = some w ∧
      regions.filter (fun r => r.pageCount != 0) = fit ++ lost ∧ w.Tracks buffer fit lost := by
  have hrise : Rising ([] ++ [] ++ regions.filter fun r => r.pageCount != 0) := h.rising
  obtain ⟨w, fit, lost, hpush, hsplit, htracks⟩ := (tracks_start buffer).pushAll hrise
  rw [pushAll_filter] at hpush
  exact ⟨w, fit, lost, hpush, hsplit, htracks⟩

/-- What a writer has made of a map: the front of the merged map is written, the rest of the buffer
is as it was, and every region with pages from the first one on for which there was no room is
counted. -/
structure Truncates (buffer regions : List Region) (w : MapWriter) : Prop where
  finish_eq : w.finish = (coalesce regions).take buffer.length
  length_eq : w.buffer.length = buffer.length
  used_eq : w.used = w.finish.length
  untouched : w.buffer.drop w.used = buffer.drop w.used
  dropped_eq : ∃ fit lost, regions.filter (fun r => r.pageCount != 0) = fit ++ lost ∧
    coalesce fit = w.finish ∧ w.dropped = lost.length ∧
    ∀ r ∈ lost.head?, buffer.length < (coalesce (fit ++ [r])).length
  dropped_eq_zero_iff : w.dropped = 0 ↔ (coalesce regions).length ≤ buffer.length
  rising : Rising w.finish
  isChain : w.finish.IsChain fun r q => r.adjoins q = false

/-- **A writer over an orderly map** does not break down and truncates the merged map, in which
one region stands for every maximal run. -/
theorem pushAll_truncates {regions : List Region} (h : Orderly regions) (buffer : List Region) :
    (∃ w, (start buffer).pushAll regions = some w ∧ w.Truncates buffer regions) ∧
      coalesce regions = (runs regions).map joined := by
  refine ⟨?_, coalesce_eq_map_joined regions⟩
  obtain ⟨w, fit, lost, hpush, hsplit, htracks⟩ := pushAll_tracks h buffer
  have hrise : Rising (fit ++ lost) := by
    rw [← hsplit]
    exact h.rising
  obtain ⟨hfinish, hlost⟩ := htracks.finish_eq_take hrise
  refine ⟨w, hpush, ?_⟩
  constructor
  case finish_eq => rw [hfinish, ← hsplit, coalesce_filter]
  case length_eq => exact htracks.length_eq
  case used_eq => rw [htracks.finish_eq, htracks.used_eq]
  case untouched => exact htracks.untouched
  case dropped_eq =>
    exact ⟨fit, lost, hsplit, htracks.finish_eq.symm, htracks.dropped_eq, htracks.refused⟩
  case dropped_eq_zero_iff =>
    rw [htracks.dropped_eq, List.length_eq_zero_iff, hlost, ← hsplit, coalesce_filter]
  case rising =>
    rw [htracks.finish_eq]
    exact rising_coalesce hrise.of_append_left
  case isChain =>
    rw [htracks.finish_eq]
    exact isChain_coalesce hrise.of_append_left

/-- Two available regions that adjoin, an empty one, one of the loader, and an available one that
ends with the address space. -/
def sampleMap : List Region :=
  [⟨0, 1, .available⟩, ⟨0x1000, 1, .available⟩, ⟨0x2000, 0, .reserved⟩, ⟨0x2000, 1, .loaderData⟩,
    ⟨0xFFFFFFFFFFFFF000, 1, .available⟩]

theorem orderly_sampleMap : Orderly sampleMap := .of_limits (by decide) (by decide)

theorem pushAll_truncates_sample :
    ∃ w, (start [default, default]).pushAll sampleMap = some w ∧
      w.Truncates [default, default] sampleMap ∧
      w.finish = [⟨0, 2, .available⟩, ⟨0x2000, 1, .loaderData⟩] := by
  obtain ⟨⟨w, hpush, htruncates⟩, -⟩ := pushAll_truncates orderly_sampleMap [default, default]
  exact ⟨w, hpush, htruncates, htruncates.finish_eq.trans (by decide)⟩

end MapWriter

end ElfBoot.Handoff
