import Mathlib.Data.List.SplitBy
import ElfBoot.Handoff.MapWriter

/-!
# Merged memory maps

What merging does to regions that follow each other in memory: nothing is lost, nothing is added,
and no two neighbours are left that could still be merged.

* `Orderly`, `Rising` — maps as firmware gives them, and without their empty regions.
* `Rising.coalesce_concat` — one more region at the end either makes the last merged one longer or stands
  behind it.
* `coalesce_append` — lists that do not adjoin are merged apart.
* `rising_coalesce`, `isChain_coalesce` — the merged list rises, and no two of its neighbours
  adjoin.
* `exists_mem_coalesce`, `exists_holds_of_mem_coalesce` — each region lies in a merged one of its
  kind, and each address of a merged one in a region of its kind.
* `coalesce_eq_map_joined` — merging puts one region in place of every maximal run.
-/

set_option autoImplicit false

namespace ElfBoot.Handoff

theorem MemoryType.isAvailable_iff {t : MemoryType} : t.isAvailable = true ↔ t = .available := by
  cases t <;> simp [isAvailable]

namespace Region

variable {r q : Region}

/-- The address lies in the region. -/
def Holds (r : Region) (x : Nat) : Prop := r.base.toNat ≤ x ∧ x < r.limit

/-- Both are available, and the second one starts where the first one ends. -/
def adjoins (r next : Region) : Bool :=
  r.kind.isAvailable && next.kind.isAvailable && r.limit == next.base.toNat

/-- The region with more pages. -/
def extend (r : Region) (pages : UInt64) : Region := { r with pageCount := r.pageCount + pages }

theorem adjoins_iff :
    r.adjoins q = true ↔
      r.kind = .available ∧ q.kind = .available ∧ r.limit = q.base.toNat := by
  simp [adjoins, MemoryType.isAvailable_iff, and_assoc]

theorem pageCount_pos (h : r.pageCount ≠ 0) : 0 < r.pageCount.toNat := by
  refine Nat.pos_of_ne_zero fun hz => h ?_
  rwa [← UInt64.toNat_inj]

theorem base_lt_limit (h : r.pageCount ≠ 0) : r.base.toNat < r.limit := by
  have := pageCount_pos h
  unfold limit pageSize
  omega

@[simp] theorem kind_extend (r : Region) (pages : UInt64) : (r.extend pages).kind = r.kind := rfl

/-- Pages that lead to an address are no more than a word can count. -/
theorem pageCount_extend (hrq : r.limit = q.base.toNat) (hq : q.limit ≤ wordLimit) :
    (r.extend q.pageCount).pageCount.toNat = r.pageCount.toNat + q.pageCount.toNat := by
  unfold limit pageSize wordLimit at *
  simp only [extend, UInt64.toNat_add]
  omega

theorem limit_extend (hrq : r.limit = q.base.toNat) (hq : q.limit ≤ wordLimit) :
    (r.extend q.pageCount).limit = q.limit := by
  show r.base.toNat + (r.extend q.pageCount).pageCount.toNat * pageSize = q.limit
  rw [pageCount_extend hrq hq, Nat.add_mul, ← Nat.add_assoc]
  show r.limit + q.pageCount.toNat * pageSize = q.limit
  rw [hrq]
  rfl

theorem pageCount_extend_ne_zero (hr : r.pageCount ≠ 0) (hrq : r.limit = q.base.toNat)
    (hq : q.limit ≤ wordLimit) : (r.extend q.pageCount).pageCount ≠ 0 := by
  intro hz
  have hpages := pageCount_extend hrq hq
  have hpos := pageCount_pos hr
  rw [hz] at hpages
  simp at hpages
  omega

theorem extend_extend (a : UInt64) :
    (r.extend q.pageCount).extend a = r.extend (q.extend a).pageCount := by
  simp [extend, UInt64.add_assoc]

/-- Only where a region starts matters for adjoining one in front of it. -/
theorem adjoins_extend_right (pages : UInt64) : r.adjoins (q.extend pages) = r.adjoins q := rfl

end Region

open Region (adjoins)

/-! ## Maps as firmware gives them -/

/-- A memory map sorted by start, in which no two regions meet and none reaches past the last
address.  Empty regions may stand anywhere. -/
structure Orderly (regions : List Region) : Prop where
  sorted : regions.Pairwise fun r q => r.base ≤ q.base
  apart : regions.Pairwise fun r q => ∀ x, r.Holds x → ¬ q.Holds x
  within : ∀ r ∈ regions, r.limit ≤ wordLimit

/-- Regions with pages, each of which ends before any later one starts, and none after the last
address. -/
structure Rising (regions : List Region) : Prop where
  paged : ∀ r ∈ regions, r.pageCount ≠ 0
  within : ∀ r ∈ regions, r.limit ≤ wordLimit
  apart : regions.Pairwise fun r q => r.limit ≤ q.base.toNat

/-- Regions each of which ends before any later one starts are an orderly map. -/
theorem Orderly.of_limits {regions : List Region}
    (h : regions.Pairwise fun r q => r.limit ≤ q.base.toNat)
    (hwithin : ∀ r ∈ regions, r.limit ≤ wordLimit) : Orderly regions := by
  refine ⟨h.imp fun {r q} hrq => ?_, h.imp fun {r q} hrq x hr hq => ?_, hwithin⟩
  · rw [UInt64.le_iff_toNat_le]
    unfold Region.limit at hrq
    omega
  · have hlo := hq.1
    have hhi := hr.2
    omega

/-- Without its empty regions, an orderly map rises. -/
theorem Orderly.rising {regions : List Region} (h : Orderly regions) :
    Rising (regions.filter fun r => r.pageCount != 0) := by
  constructor
  · intro r hr
    simpa using (List.mem_filter.1 hr).2
  · intro r hr
    exact h.within r (List.mem_filter.1 hr).1
  · rw [List.pairwise_filter]
    refine (h.sorted.and h.apart).imp fun {r q} hrq hr hq => ?_
    obtain ⟨hle, hapart⟩ := hrq
    rw [UInt64.le_iff_toNat_le] at hle
    have hqlt : q.base.toNat < q.limit := Region.base_lt_limit (by simpa using hq)
    -- otherwise both would hold the start of the later one
    refine Nat.le_of_not_lt fun hlt => ?_
    exact hapart q.base.toNat ⟨hle, hlt⟩ ⟨Nat.le_refl _, hqlt⟩

/-! ## Merging step by step -/

theorem joinFront_cons (r q : Region) (rest : List Region) :
    joinFront r (q :: rest) =
      if r.adjoins q then r.extend q.pageCount :: rest else r :: q :: rest := rfl

theorem coalesce_cons {r : Region} {rest : List Region} (h : r.pageCount ≠ 0) :
    coalesce (r :: rest) = joinFront r (coalesce rest) := by
  simp [coalesce, h]

theorem coalesce_filter (regions : List Region) :
    coalesce (regions.filter fun r => r.pageCount != 0) = coalesce regions := by
  simp [coalesce, List.filter_filter]

namespace Rising

variable {regions front rest : List Region} {r a : Region}

theorem nil : Rising [] := ⟨by simp, by simp, .nil⟩

theorem cons_iff :
    Rising (r :: rest) ↔ (r.pageCount ≠ 0 ∧ r.limit ≤ wordLimit ∧
      ∀ q ∈ rest, r.limit ≤ q.base.toNat) ∧ Rising rest := by
  constructor
  · rintro ⟨hpaged, hwithin, hapart⟩
    rw [List.forall_mem_cons] at hpaged hwithin
    rw [List.pairwise_cons] at hapart
    exact ⟨⟨hpaged.1, hwithin.1, hapart.1⟩, hpaged.2, hwithin.2, hapart.2⟩
  · rintro ⟨⟨hp, hw, ha⟩, hrest⟩
    exact ⟨List.forall_mem_cons.2 ⟨hp, hrest.paged⟩, List.forall_mem_cons.2 ⟨hw, hrest.within⟩,
      List.pairwise_cons.2 ⟨ha, hrest.apart⟩⟩

theorem of_append_left (h : Rising (front ++ rest)) : Rising front :=
  ⟨fun r hr => h.paged r (by simp [hr]), fun r hr => h.within r (by simp [hr]),
    (List.pairwise_append.1 h.apart).1⟩

theorem of_append_right (h : Rising (front ++ rest)) : Rising rest :=
  ⟨fun r hr => h.paged r (by simp [hr]), fun r hr => h.within r (by simp [hr]),
    (List.pairwise_append.1 h.apart).2.1⟩

/-- **One more region at the end** makes the last merged one longer if it adjoins the last region,
and otherwise stands behind it. -/
theorem coalesce_concat (h : Rising (front ++ [a])) :
    ∃ done last, coalesce (front ++ [a]) = done ++ [last] ∧ last.kind = a.kind ∧
      last.limit = a.limit ∧ ∀ r : Region, r.pageCount ≠ 0 →
        coalesce (front ++ [a] ++ [r]) =
          if a.adjoins r then done ++ [last.extend r.pageCount] else done ++ [last, r] := by
  induction front with
  | nil =>
    have ha : a.pageCount ≠ 0 := h.paged a (by simp)
    refine ⟨[], a, ?_, rfl, rfl, fun r hr => ?_⟩
    · simp [coalesce, ha, joinFront]
    · simp [coalesce, ha, hr, joinFront, Region.adjoins, Region.extend]
  | cons b front ih =>
    rw [List.cons_append, cons_iff] at h
    obtain ⟨⟨hb, -, hbefore⟩, hrest⟩ := h
    obtain ⟨done, last, heq, hkind, hlimit, hnext⟩ := ih hrest
    have hlast : last.limit ≤ wordLimit := by
      rw [hlimit]
      exact hrest.within a (by simp)
    simp only [List.cons_append, coalesce_cons hb, heq]
    simp only [List.append_assoc, List.cons_append, List.nil_append] at hnext ⊢
    cases done with
    | nil =>
      by_cases hadj : b.adjoins last
      · obtain ⟨hbk, hlk, hbl⟩ := Region.adjoins_iff.1 hadj
        refine ⟨[], b.extend last.pageCount, ?_, ?_, ?_, fun r hr => ?_⟩
        · simp [joinFront_cons, hadj]
        · rw [← hkind, hlk]
          exact hbk
        · rw [Region.limit_extend hbl hlast, hlimit]
        · rw [hnext r hr]
          split <;> simp [joinFront_cons, hadj, Region.adjoins_extend_right,
            Region.extend_extend]
      · refine ⟨[b], last, ?_, hkind, hlimit, fun r hr => ?_⟩
        · simp [joinFront_cons, hadj]
        · rw [hnext r hr]
          split <;> simp [joinFront_cons, hadj, Region.adjoins_extend_right]
    | cons d done =>
      by_cases hadj : b.adjoins d
      · refine ⟨b.extend d.pageCount :: done, last, ?_, hkind, hlimit, fun r hr => ?_⟩
        · simp [joinFront_cons, hadj]
        · rw [hnext r hr]
          split <;> simp [joinFront_cons, hadj]
      · refine ⟨b :: d :: done, last, ?_, hkind, hlimit, fun r hr => ?_⟩
        · simp [joinFront_cons, hadj]
        · rw [hnext r hr]
          split <;> simp [joinFront_cons, hadj]

end Rising

/-- **One more region in front** becomes longer by the first merged one, or stands in front of
it. -/
theorem coalesce_cons_cases {r : Region} (hr : r.pageCount ≠ 0) (rest : List Region) :
    (∃ q tail, coalesce rest = q :: tail ∧ r.adjoins q = true ∧
      coalesce (r :: rest) = r.extend q.pageCount :: tail) ∨
    ((∀ q ∈ (coalesce rest).head?, r.adjoins q = false) ∧
      coalesce (r :: rest) = r :: coalesce rest) := by
  rw [coalesce_cons hr]
  cases coalesce rest with
  | nil => exact .inr ⟨by simp, rfl⟩
  | cons q tail =>
    rw [joinFront_cons]
    by_cases hadj : r.adjoins q = true
    · exact .inl ⟨q, tail, rfl, hadj, if_pos hadj⟩
    · exact .inr ⟨by simpa using hadj, if_neg hadj⟩

/-- Merging looks at the start and the kind of a region behind, and keeps both. -/
theorem exists_coalesce_cons {r : Region} (hr : r.pageCount ≠ 0) (rest : List Region) :
    ∃ n tail, coalesce (r :: rest) = { r with pageCount := n } :: tail := by
  rcases coalesce_cons_cases hr rest with ⟨q, tail, -, -, heq⟩ | ⟨-, heq⟩
  · exact ⟨_, tail, heq⟩
  · exact ⟨r.pageCount, _, heq⟩

/-- **Lists that do not adjoin** are merged apart. -/
theorem coalesce_append {front rest : List Region} (hf : ∀ r ∈ front, r.pageCount ≠ 0)
    (hr : ∀ r ∈ rest, r.pageCount ≠ 0)
    (hadj : ∀ r ∈ front.getLast?, ∀ q ∈ rest.head?, r.adjoins q = false) :
    coalesce (front ++ rest) = coalesce front ++ coalesce rest := by
  induction front with
  | nil => simp [coalesce]
  | cons b front ih =>
    obtain ⟨hb, hfront⟩ := List.forall_mem_cons.1 hf
    rw [List.cons_append, coalesce_cons hb, coalesce_cons hb]
    cases front with
    | nil =>
      cases rest with
      | nil => simp [coalesce]
      | cons q rest =>
        obtain ⟨n, tail, heq⟩ := exists_coalesce_cons (hr q (by simp)) rest
        have hno : b.adjoins { q with pageCount := n } = false := hadj b (by simp) q (by simp)
        rw [List.nil_append, heq, joinFront_cons, hno]
        rfl
    | cons c front =>
      obtain ⟨n, tail, heq⟩ := exists_coalesce_cons (hfront c (by simp)) front
      rw [ih hfront (by simpa using hadj), heq]
      simp only [List.cons_append, joinFront_cons]
      split <;> simp

/-! ## What merging keeps -/

section Keeps

variable {regions : List Region}

/-- Every merged region starts where one of the regions does. -/
theorem exists_base_of_mem_coalesce (hp : ∀ r ∈ regions, r.pageCount ≠ 0) :
    ∀ m ∈ coalesce regions, ∃ r ∈ regions, r.base = m.base := by
  induction regions with
  | nil => simp [coalesce]
  | cons r rest ih =>
    obtain ⟨hr, hrest⟩ := List.forall_mem_cons.1 hp
    have hlater : ∀ m ∈ coalesce rest, ∃ r' ∈ r :: rest, r'.base = m.base := by
      intro m hm
      obtain ⟨r', hr', hbase⟩ := ih hrest m hm
      exact ⟨r', List.mem_cons_of_mem r hr', hbase⟩
    rcases coalesce_cons_cases hr rest with ⟨q, tail, hc, -, heq⟩ | ⟨-, heq⟩
    · rw [hc, List.forall_mem_cons] at hlater
      rw [heq]
      exact List.forall_mem_cons.2 ⟨⟨r, by simp, rfl⟩, hlater.2⟩
    · rw [heq]
      exact List.forall_mem_cons.2 ⟨⟨r, by simp, rfl⟩, hlater⟩

/-- **The merged list** rises. -/
theorem rising_coalesce (h : Rising regions) : Rising (coalesce regions) := by
  induction regions with
  | nil => exact .nil
  | cons r rest ih =>
    obtain ⟨⟨hr, hlimit, hbefore⟩, hrest⟩ := Rising.cons_iff.1 h
    have hmerged := ih hrest
    rcases coalesce_cons_cases hr rest with ⟨q, tail, hc, hadj, heq⟩ | ⟨-, heq⟩
    · obtain ⟨-, -, hmeet⟩ := Region.adjoins_iff.1 hadj
      rw [hc] at hmerged
      obtain ⟨⟨-, hq, hqbefore⟩, htail⟩ := Rising.cons_iff.1 hmerged
      rw [heq]
      refine Rising.cons_iff.2 ⟨⟨Region.pageCount_extend_ne_zero hr hmeet hq, ?_, ?_⟩, htail⟩
      · rw [Region.limit_extend hmeet hq]
        exact hq
      · rw [Region.limit_extend hmeet hq]
        exact hqbefore
    · rw [heq]
      refine Rising.cons_iff.2 ⟨⟨hr, hlimit, fun m hm => ?_⟩, hmerged⟩
      obtain ⟨q, hq, hbase⟩ := exists_base_of_mem_coalesce hrest.paged m hm
      rw [← hbase]
      exact hbefore q hq

/-- **No two neighbours of the merged list** could still be merged. -/
theorem isChain_coalesce (h : Rising regions) :
    (coalesce regions).IsChain fun r q => r.adjoins q = false := by
  induction regions with
  | nil => exact .nil
  | cons r rest ih =>
    obtain ⟨⟨hr, -, -⟩, hrest⟩ := Rising.cons_iff.1 h
    have hmerged := rising_coalesce hrest
    have hchain := ih hrest
    rcases coalesce_cons_cases hr rest with ⟨q, tail, hc, hadj, heq⟩ | ⟨hno, heq⟩
    · obtain ⟨hrk, hqk, hmeet⟩ := Region.adjoins_iff.1 hadj
      rw [hc] at hmerged hchain
      -- the joined region is of the kind of both, and ends where the second one does
      have hsame : ∀ m, (r.extend q.pageCount).adjoins m = q.adjoins m := by
        intro m
        have hlimit := Region.limit_extend hmeet (hmerged.within q (by simp))
        simp [Region.adjoins, hlimit, hrk, hqk]
      rw [List.isChain_cons] at hchain
      rw [heq, List.isChain_cons]
      refine ⟨fun m hm => ?_, hchain.2⟩
      rw [hsame]
      exact hchain.1 m hm
    · rw [heq, List.isChain_cons]
      exact ⟨hno, hchain⟩

/-- **Nothing is lost**: every region lies in a merged one of its kind. -/
theorem exists_mem_coalesce (h : Rising regions) :
    ∀ r ∈ regions, ∃ m ∈ coalesce regions,
      m.kind = r.kind ∧ m.base.toNat ≤ r.base.toNat ∧ r.limit ≤ m.limit := by
  induction regions with
  | nil => simp
  | cons r rest ih =>
    obtain ⟨⟨hr, -, -⟩, hrest⟩ := Rising.cons_iff.1 h
    have hmerged := rising_coalesce hrest
    have ih := ih hrest
    rcases coalesce_cons_cases hr rest with ⟨f, tail, hc, hadj, heq⟩ | ⟨-, heq⟩
    · obtain ⟨hrk, hfk, hmeet⟩ := Region.adjoins_iff.1 hadj
      rw [hc] at ih hmerged
      have hjoined := Region.limit_extend hmeet (hmerged.within f (by simp))
      have hrlt := Region.base_lt_limit hr
      have hflt := Region.base_lt_limit (hmerged.paged f (by simp))
      rw [heq]
      refine List.forall_mem_cons.2 ⟨⟨_, List.mem_cons_self, rfl, Nat.le_refl _, by omega⟩, ?_⟩
      intro q hq
      obtain ⟨m, hm, hkind, hlo, hhi⟩ := ih q hq
      rcases List.mem_cons.1 hm with rfl | hm
      · -- what the first merged one held is held by the joined one
        refine ⟨_, List.mem_cons_self, ?_, ?_, by omega⟩
        · show r.kind = q.kind
          rw [← hkind, hrk, hfk]
        · show r.base.toNat ≤ q.base.toNat
          omega
      · exact ⟨m, by simp [hm], hkind, hlo, hhi⟩
    · rw [heq]
      refine List.forall_mem_cons.2 ⟨⟨r, by simp⟩, fun q hq => ?_⟩
      obtain ⟨m, hm, hholds⟩ := ih q hq
      exact ⟨m, by simp [hm], hholds⟩

/-- **Nothing is added**: every address of a merged region lies in a region of its kind. -/
theorem exists_holds_of_mem_coalesce (h : Rising regions) {x : Nat} :
    ∀ m ∈ coalesce regions, m.Holds x → ∃ r ∈ regions, r.kind = m.kind ∧ r.Holds x := by
  induction regions with
  | nil => simp [coalesce]
  | cons r rest ih =>
    obtain ⟨⟨hr, -, -⟩, hrest⟩ := Rising.cons_iff.1 h
    have hmerged := rising_coalesce hrest
    have hlater : ∀ q ∈ coalesce rest, q.Holds x →
        ∃ r' ∈ r :: rest, r'.kind = q.kind ∧ r'.Holds x := by
      intro q hq hqx
      obtain ⟨r', hr', hholds⟩ := ih hrest q hq hqx
      exact ⟨r', List.mem_cons_of_mem r hr', hholds⟩
    rcases coalesce_cons_cases hr rest with ⟨f, tail, hc, hadj, heq⟩ | ⟨-, heq⟩
    · obtain ⟨hrk, hfk, hmeet⟩ := Region.adjoins_iff.1 hadj
      rw [hc] at hlater hmerged
      rw [List.forall_mem_cons] at hlater
      rw [heq]
      refine List.forall_mem_cons.2 ⟨?_, hlater.2⟩
      rintro ⟨hlo, hhi⟩
      rw [Region.limit_extend hmeet (hmerged.within f (by simp))] at hhi
      by_cases hfirst : x < r.limit
      · exact ⟨r, by simp, rfl, hlo, hfirst⟩
      · obtain ⟨r', hr', hkind, hholds⟩ := hlater.1 ⟨by omega, hhi⟩
        refine ⟨r', hr', ?_, hholds⟩
        show r'.kind = r.kind
        rw [hkind, hfk, hrk]
    · rw [heq]
      exact List.forall_mem_cons.2 ⟨fun hx => ⟨r, by simp, rfl, hx⟩, hlater⟩

end Keeps

/-! ## Maximal runs -/

/-- The maximal runs of regions of which each adjoins the next one, empty regions left out. -/
def runs (regions : List Region) : List (List Region) :=
  (regions.filter fun r => r.pageCount != 0).splitBy adjoins

/-- One region in place of a run: it starts where the run does and has all its pages. -/
def joined : List Region → Region
  | [] => default
  | r :: rest =>
    { r with pageCount := .ofNat ((r :: rest).foldr (fun q pages => q.pageCount.toNat + pages) 0) }

theorem joined_cons_cons (r q : Region) (rest : List Region) :
    joined (r :: q :: rest) = r.extend (joined (q :: rest)).pageCount := by
  simp [joined, Region.extend, UInt64.ofNat_add]

/-- A region in front of a run that it adjoins belongs to the run. -/
theorem splitBy_cons_of_adjoins {r q : Region} {rest run : List Region} {others : List (List Region)}
    (hsplit : (q :: rest).splitBy adjoins = run :: others) (hadj : r.adjoins q = true) :
    (r :: q :: rest).splitBy adjoins = (r :: run) :: others := by
  obtain ⟨hflat, hnil, hruns, hbreaks⟩ := List.splitBy_eq_iff.1 hsplit
  have hrun : run ≠ [] := fun hno => hnil (by simp [hno])
  obtain ⟨first, run, rfl⟩ := List.exists_cons_of_ne_nil hrun
  have hfirst : q = first := by
    simp only [List.flatten_cons, List.cons_append, List.cons.injEq] at hflat
    exact hflat.1
  subst hfirst
  refine List.splitBy_eq_iff.2 ⟨by rw [hflat]; simp, by simpa using hnil, ?_, ?_⟩
  · rw [List.forall_mem_cons] at hruns ⊢
    exact ⟨List.isChain_cons_cons.2 ⟨hadj, hruns.1⟩, hruns.2⟩
  · rw [List.isChain_cons] at hbreaks ⊢
    refine ⟨fun next hnext => ?_, hbreaks.2⟩
    obtain ⟨hlast, hhead, hno⟩ := hbreaks.1 next hnext
    exact ⟨by simp, hhead, by simpa using hno⟩

/-- **Merging puts one region in place of every maximal run.** -/
theorem coalesce_eq_map_joined (regions : List Region) :
    coalesce regions = (runs regions).map joined := by
  rw [← coalesce_filter, runs]
  have hpaged : ∀ r ∈ regions.filter (fun r => r.pageCount != 0), r.pageCount ≠ 0 := by
    intro r hr
    simpa using (List.mem_filter.1 hr).2
  generalize regions.filter (fun r => r.pageCount != 0) = paged at hpaged
  induction paged with
  | nil => rfl
  | cons r rest ih =>
    obtain ⟨hr, hrest⟩ := List.forall_mem_cons.1 hpaged
    have ih := ih hrest
    rw [coalesce_cons hr, ih]
    cases rest with
    | nil => simp [List.splitBy_of_isChain, joinFront, joined]
    | cons q rest =>
      have hne : (q :: rest).splitBy adjoins ≠ [] := by simp
      obtain ⟨run, others, hsplit⟩ := List.exists_cons_of_ne_nil hne
      have hrun : run ≠ [] := List.ne_nil_of_mem_splitBy (r := adjoins) (l := q :: rest) (by simp [hsplit])
      obtain ⟨first, run, rfl⟩ := List.exists_cons_of_ne_nil hrun
      have hfirst : first = q := by
        have hflat := List.flatten_splitBy adjoins (q :: rest)
        rw [hsplit] at hflat
        simpa using (List.cons.inj hflat).1
      subst hfirst
      by_cases hadj : r.adjoins first
      · rw [splitBy_cons_of_adjoins hsplit hadj, hsplit]
        have hj : r.adjoins (joined (first :: run)) = true := hadj
        simp [joinFront_cons, hj, joined_cons_cons]
      · have hno : ¬ r.adjoins (joined (first :: run)) = true := hadj
        have hone := List.splitBy_append_cons (r := adjoins) (l := [r]) (a := first) rest
          (by simpa using hadj)
        rw [List.singleton_append] at hone
        rw [hone, hsplit, List.map_append, List.map_cons, joinFront_cons, if_neg hno]
        simp [List.splitBy_of_isChain, joined]

end ElfBoot.Handoff
