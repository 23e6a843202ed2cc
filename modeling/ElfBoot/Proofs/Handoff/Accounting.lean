import ElfBoot.Proofs.Handoff.MapWriter

/-!
# Accounting for the memory of a map

Regions may reach the writer in any order, and may overlap.  Merging changes the entry written last
in place, at any time, also when the buffer is full and regions were dropped before.  Still nothing
is lost and nothing is added: counted with multiplicity, an address is covered by the map as often
as by the regions that the writer accepted.

* `coverage` — how many regions of a kind hold an address.
* `MapWriter.Fate`, `MapWriter.Takes` — what may become of a region that is pushed, told by what is
  seen of the writer before and after; `MapWriter.Runs` — a history of pushes.
* `MapWriter.Sound.push` — one push; `MapWriter.Sound.pushAll` — a list of them.
* `MapWriter.Accounts` — what a history adds to a map, for one push and, put together, for many.
* `MapWriter.pushAll_tally` — the writer over any regions that end at an address.
-/

set_option autoImplicit false

namespace ElfBoot.Handoff

/-! ## Counting the regions at an address -/

namespace Region

variable {r q : Region} {x : Nat}

instance (r : Region) (x : Nat) : Decidable (r.Holds x) :=
  inferInstanceAs (Decidable (r.base.toNat ≤ x ∧ x < r.limit))

/-- A region made longer by the one behind it holds the addresses of both. -/
theorem holds_extend (hrq : r.limit = q.base.toNat) (hq : q.limit ≤ wordLimit) :
    (r.extend q.pageCount).Holds x ↔ r.Holds x ∨ q.Holds x := by
  have hlimit := limit_extend hrq hq
  have hr : r.base.toNat ≤ r.limit := Nat.le_add_right _ _
  have hqle : q.base.toNat ≤ q.limit := Nat.le_add_right _ _
  unfold Holds
  rw [hlimit]
  show r.base.toNat ≤ x ∧ x < q.limit ↔ _
  omega

/-- No address lies in a region and in the one behind it. -/
theorem not_holds_of_holds (hrq : r.limit = q.base.toNat) (hr : r.Holds x) : ¬ q.Holds x := by
  intro hq
  have hlo := hq.1
  have hhi := hr.2
  omega

end Region

/-- How many regions of a kind hold an address. -/
def coverage (regions : List Region) (kind : MemoryType) (x : Nat) : Nat :=
  regions.countP fun r => decide (r.kind = kind ∧ r.Holds x)

theorem coverage_append (front rest : List Region) (kind : MemoryType) (x : Nat) :
    coverage (front ++ rest) kind x = coverage front kind x + coverage rest kind x :=
  List.countP_append

/-- **Merging two regions** keeps how often an address is covered. -/
theorem coverage_extend {last r : Region} (h : last.adjoins r = true) (hr : r.limit ≤ wordLimit)
    (kind : MemoryType) (x : Nat) :
    coverage [last.extend r.pageCount] kind x = coverage [last] kind x + coverage [r] kind x := by
  obtain ⟨hlast, hkind, hmeet⟩ := Region.adjoins_iff.1 h
  have hholds := Region.holds_extend (x := x) hmeet hr
  have hapart := Region.not_holds_of_holds (x := x) hmeet
  simp only [coverage, List.countP_singleton, Region.kind_extend, hholds, hlast, hkind,
    decide_eq_true_eq]
  by_cases hx : last.Holds x
  · simp [hx, hapart hx]
  · simp [hx]

namespace MapWriter

variable {w w' w'' : MapWriter} {r : Region} {capacity : Nat}

/-! ## What becomes of a region -/

/-- What may become of a region that is pushed. -/
inductive Fate where
  | skipped
  | stored
  | merged
  | dropped
  deriving DecidableEq, Repr

/-- Whether the region's memory is part of the map from then on. -/
def Fate.accepts : Fate → Bool
  | stored | merged => true
  | skipped | dropped => false

/-- What is seen of a writer before and after a region was pushed.  An empty region changes nothing.
One that continues the entry written last is merged into it, and the entry then ends where the
region does.  Any other is stored behind the entries if there is room, and else counted as
dropped. -/
inductive Takes (w : MapWriter) (r : Region) : Fate → MapWriter → Prop where
  | skipped (empty : r.pageCount = 0) : Takes w r .skipped w
  | stored {w' : MapWriter} (paged : r.pageCount ≠ 0)
      (apart : ∀ last ∈ w.finish.getLast?, last.adjoins r = false)
      (room : w.used < w.buffer.length) (finish_eq : w'.finish = w.finish ++ [r])
      (dropped_eq : w'.dropped = w.dropped) : Takes w r .stored w'
  | merged {w' : MapWriter} {done : List Region} {last : Region} (paged : r.pageCount ≠ 0)
      (before : w.finish = done ++ [last]) (adjoins : last.adjoins r = true)
      (finish_eq : w'.finish = done ++ [last.extend r.pageCount])
      (limit_eq : (last.extend r.pageCount).limit = r.limit)
      (dropped_eq : w'.dropped = w.dropped) : Takes w r .merged w'
  | dropped {w' : MapWriter} (paged : r.pageCount ≠ 0)
      (apart : ∀ last ∈ w.finish.getLast?, last.adjoins r = false)
      (full : w.used = w.buffer.length) (finish_eq : w'.finish = w.finish)
      (dropped_eq : w'.dropped = w.dropped + 1) : Takes w r .dropped w'

/-- What the counts tell about a fate. -/
theorem Takes.counts {fate : Fate} (h : w.Takes r fate w') :
    (r.pageCount = 0 ↔ fate = .skipped) ∧
      w'.finish.length = w.finish.length + (if fate = .stored then 1 else 0) ∧
      w'.dropped = w.dropped + (if fate = .dropped then 1 else 0) := by
  cases h with
  | skipped empty => simp [empty]
  | stored paged _ _ finish_eq dropped_eq => simp [paged, finish_eq, dropped_eq]
  | merged paged before _ finish_eq _ dropped_eq => simp [paged, before, finish_eq, dropped_eq]
  | dropped paged _ _ finish_eq dropped_eq => simp [paged, finish_eq, dropped_eq]

/-- A region meets **only one fate**: the counts tell which. -/
theorem Takes.fate_unique {fate other : Fate} (h : w.Takes r fate w') (h' : w.Takes r other w') :
    fate = other := by
  obtain ⟨hempty, hlength, hdropped⟩ := h.counts
  obtain ⟨hempty', hlength', hdropped'⟩ := h'.counts
  have hskipped : fate = .skipped ↔ other = .skipped := hempty.symm.trans hempty'
  rw [hlength] at hlength'
  rw [hdropped] at hdropped'
  cases fate <;> cases other <;> simp at hskipped hlength' hdropped' ⊢

/-- A history of pushes: every region with its fate, from the first one on. -/
inductive Runs : MapWriter → List (Region × Fate) → MapWriter → Prop where
  | nil {w : MapWriter} : Runs w [] w
  | cons {w w' w'' : MapWriter} {r : Region} {fate : Fate} {rest : List (Region × Fate)}
      (push_eq : w.push r = some w') (takes : w.Takes r fate w') (runs : Runs w' rest w'') :
      Runs w ((r, fate) :: rest) w''

/-- The same regions have **only one history**. -/
theorem Runs.history_unique {history other : List (Region × Fate)} (h : w.Runs history w')
    (h' : w.Runs other w'') (hregions : history.map Prod.fst = other.map Prod.fst) :
    history = other := by
  induction h generalizing other with
  | nil => exact (List.map_eq_nil_iff.1 hregions.symm).symm
  | cons push_eq takes runs ih =>
    cases h' with
    | nil => simp at hregions
    | cons push_eq' takes' runs' =>
      simp only [List.map_cons, List.cons.injEq] at hregions
      obtain ⟨rfl, hrest⟩ := hregions
      obtain rfl := Option.some.inj (push_eq.symm.trans push_eq')
      rw [takes.fate_unique takes', ih runs' hrest]

/-! ## The writer keeps going -/

/-- The state that every push keeps: what is used lies in the buffer, and every entry ends at an
address. -/
structure Sound (capacity : Nat) (w : MapWriter) : Prop where
  length_eq : w.buffer.length = capacity
  used_le : w.used ≤ w.buffer.length
  within : ∀ m ∈ w.finish, m.limit < wordLimit

theorem sound_start (buffer : List Region) : (start buffer).Sound buffer.length where
  length_eq := rfl
  used_le := Nat.zero_le _
  within := by simp [finish, start]

namespace Sound

theorem length_finish (h : w.Sound capacity) : w.finish.length = w.used := by
  have hle := h.used_le
  simp only [finish, List.length_take]
  omega

/-- A region that continues none is stored if there is room, and otherwise dropped. -/
theorem store (h : w.Sound capacity) (hpaged : r.pageCount ≠ 0) (hr : r.limit < wordLimit)
    (hapart : ∀ last ∈ w.finish.getLast?, last.adjoins r = false) :
    ∃ fate, (w.store r).Sound capacity ∧ w.Takes r fate (w.store r) := by
  have hle := h.used_le
  by_cases hroom : w.used < w.buffer.length
  · have hfinish := finish_store r hroom
    rw [MapWriter.store, if_pos hroom] at hfinish ⊢
    refine ⟨.stored, ⟨?_, ?_, ?_⟩, .stored hpaged hapart hroom hfinish rfl⟩
    · simpa using h.length_eq
    · rw [List.length_set]
      exact hroom
    · intro m hm
      rw [hfinish, List.mem_append, List.mem_singleton] at hm
      rcases hm with hm | rfl
      · exact h.within m hm
      · exact hr
  · rw [MapWriter.store, if_neg hroom]
    have hfull : w.used = w.buffer.length := by omega
    exact ⟨.dropped, ⟨h.length_eq, hle, h.within⟩, .dropped hpaged hapart hfull rfl rfl⟩

/-- A region that continues the entry written last makes it longer; its page count stays a word. -/
theorem extendLast (h : w.Sound capacity) (hpaged : r.pageCount ≠ 0) (hr : r.limit < wordLimit)
    {done : List Region} {last : Region} (hfinish : w.finish = done ++ [last])
    (hadj : last.adjoins r = true) :
    ∃ w', w.extendLast? last r.pageCount = some w' ∧ w'.Sound capacity ∧
      w.Takes r .merged w' := by
  obtain ⟨-, -, hmeet⟩ := Region.adjoins_iff.1 hadj
  have hlimit := Region.limit_extend hmeet (Nat.le_of_lt hr)
  have hpages : last.pageCount.toNat + r.pageCount.toNat < wordLimit := by
    rw [← Region.pageCount_extend hmeet (Nat.le_of_lt hr)]
    exact UInt64.toNat_lt _
  have hafter := finish_setLast h.used_le hfinish (last.extend r.pageCount)
  refine ⟨_, extendLast?_eq w hpages, ⟨?_, ?_, ?_⟩, .merged hpaged hfinish hadj hafter hlimit rfl⟩
  · simpa using h.length_eq
  · simpa using h.used_le
  · intro m hm
    rw [hafter, List.mem_append, List.mem_singleton] at hm
    rcases hm with hm | rfl
    · exact h.within m (by simp [hfinish, hm])
    · rw [hlimit]
      exact hr

/-- **One region** never breaks the writer, and meets one of the four fates. -/
theorem push (h : w.Sound capacity) (hr : r.limit < wordLimit) :
    ∃ w' fate, w.push r = some w' ∧ w'.Sound capacity ∧ w.Takes r fate w' := by
  unfold MapWriter.push
  by_cases hpaged : r.pageCount = 0
  · exact ⟨w, .skipped, if_pos hpaged, h, .skipped hpaged⟩
  rw [if_neg hpaged, last?_eq_getLast? h.used_le]
  rcases List.eq_nil_or_concat w.finish with hnil | ⟨done, last, hfinish⟩
  · obtain ⟨fate, hstore⟩ := h.store hpaged hr (by simp [hnil])
    rw [hnil]
    exact ⟨_, fate, rfl, hstore⟩
  rw [List.concat_eq_append] at hfinish
  have hlast : w.finish.getLast? = some last := by rw [hfinish, List.getLast?_concat]
  have hend : last.limit < wordLimit := h.within last (by simp [hfinish])
  rw [hlast]
  dsimp only
  rw [continues?_eq hend, Option.bind_eq_bind, Option.bind_some]
  by_cases hadj : last.adjoins r = true
  · obtain ⟨w', hw', hextend⟩ := h.extendLast hpaged hr hfinish hadj
    exact ⟨w', .merged, by rw [if_pos hadj, hw'], hextend⟩
  · obtain ⟨fate, hstore⟩ := h.store hpaged hr (by simpa [hlast] using hadj)
    exact ⟨_, fate, by rw [if_neg hadj]; rfl, hstore⟩

/-- **Regions one after another**: the writer takes each of them. -/
theorem pushAll {regions : List Region} (h : w.Sound capacity)
    (hregions : ∀ r ∈ regions, r.limit < wordLimit) :
    ∃ w' history, w.pushAll regions = some w' ∧ w'.Sound capacity ∧
      history.map Prod.fst = regions ∧ w.Runs history w' := by
  induction regions generalizing w with
  | nil => exact ⟨w, [], rfl, h, rfl, .nil⟩
  | cons r rest ih =>
    rw [List.forall_mem_cons] at hregions
    obtain ⟨w₁, fate, hpush, hsound, htakes⟩ := h.push hregions.1
    obtain ⟨w', history, hall, hend, hmap, hruns⟩ := ih hsound hregions.2
    refine ⟨w', (r, fate) :: history, ?_, hend, ?_, .cons hpush htakes hruns⟩
    · rw [pushAll_cons hpush, hall]
    · rw [List.map_cons, hmap]

end Sound

/-! ## What a history adds to a map -/

/-- The regions of a history that were stored or merged. -/
def accepted (history : List (Region × Fate)) : List Region :=
  (history.filter fun e => e.2.accepts).map Prod.fst

/-- How many regions of a history met a fate. -/
def tally (fate : Fate) (history : List (Region × Fate)) : Nat :=
  history.countP fun e => decide (e.2 = fate)

/-- The regions that merging never touches. -/
def kept (regions : List Region) : List Region := regions.filter fun r => !r.kind.isAvailable

/-- What a history adds to a map: the memory of the regions that were accepted, those of other kinds
than available as they are, and to the counts one for each region stored or dropped. -/
structure Accounts (w : MapWriter) (history : List (Region × Fate)) (w' : MapWriter) : Prop where
  coverage_eq : ∀ kind x, coverage w'.finish kind x =
    coverage w.finish kind x + coverage (accepted history) kind x
  kept_eq : kept w'.finish = kept w.finish ++ kept (accepted history)
  length_eq : w'.finish.length = w.finish.length + tally .stored history
  dropped_eq : w'.dropped = w.dropped + tally .dropped history

theorem tally_singleton (fate other : Fate) (r : Region) :
    tally other [(r, fate)] = if fate = other then 1 else 0 := by
  simp [tally, List.countP_singleton]

/-- **One push** adds what its fate says. -/
theorem Takes.accounts {fate : Fate} (h : w.Takes r fate w') (hr : r.limit ≤ wordLimit) :
    w.Accounts [(r, fate)] w' := by
  obtain ⟨-, hlength, hdropped⟩ := h.counts
  constructor
  case length_eq => rw [hlength, tally_singleton]
  case dropped_eq => rw [hdropped, tally_singleton]
  case coverage_eq =>
    intro kind x
    cases h with
    | skipped => rfl
    | stored _ _ _ finish_eq =>
      rw [finish_eq, coverage_append]
      rfl
    | merged _ before adjoins finish_eq =>
      rw [finish_eq, before, coverage_append, coverage_append, coverage_extend adjoins hr,
        ← Nat.add_assoc]
      rfl
    | dropped _ _ _ finish_eq =>
      rw [finish_eq]
      rfl
  case kept_eq =>
    cases h with
    | skipped => exact (List.append_nil _).symm
    | stored _ _ _ finish_eq =>
      rw [finish_eq, kept, List.filter_append]
      rfl
    | merged _ before adjoins finish_eq =>
      -- both the entry and the region are available
      obtain ⟨hlast, hkind, -⟩ := Region.adjoins_iff.1 adjoins
      simp [finish_eq, before, kept, accepted, Fate.accepts, hlast, hkind, MemoryType.isAvailable]
    | dropped _ _ _ finish_eq =>
      rw [finish_eq]
      exact (List.append_nil _).symm

/-- Two histories in a row add what both add. -/
theorem Accounts.append {front rest : List (Region × Fate)} (h : w.Accounts front w')
    (h' : w'.Accounts rest w'') : w.Accounts (front ++ rest) w'' := by
  have haccepted : accepted (front ++ rest) = accepted front ++ accepted rest := by
    simp [accepted]
  have htally : ∀ fate, tally fate (front ++ rest) = tally fate front + tally fate rest :=
    fun fate => List.countP_append
  constructor
  case coverage_eq =>
    intro kind x
    rw [h'.coverage_eq, h.coverage_eq, haccepted, coverage_append, Nat.add_assoc]
  case kept_eq =>
    rw [h'.kept_eq, h.kept_eq, haccepted, List.append_assoc, kept, kept, kept, kept,
      List.filter_append]
  case length_eq => rw [h'.length_eq, h.length_eq, htally, Nat.add_assoc]
  case dropped_eq => rw [h'.dropped_eq, h.dropped_eq, htally, Nat.add_assoc]

/-- **A history of pushes** adds what its pushes add. -/
theorem Runs.accounts {history : List (Region × Fate)} (h : w.Runs history w')
    (hregions : ∀ r ∈ history.map Prod.fst, r.limit ≤ wordLimit) : w.Accounts history w' := by
  induction h with
  | nil => constructor <;> simp [accepted, tally, kept, coverage]
  | cons push_eq takes runs ih =>
    rw [List.map_cons, List.forall_mem_cons] at hregions
    exact (takes.accounts hregions.1).append (ih hregions.2)

theorem tally_add_tally_le (history : List (Region × Fate)) :
    tally .stored history + tally .dropped history ≤ history.length := by
  induction history with
  | nil => simp [tally]
  | cons e rest ih =>
    simp only [tally, List.countP_cons, List.length_cons, decide_eq_true_eq] at ih ⊢
    cases hfate : e.2 <;> simp <;> omega

/-! ## Maps of any regions -/

/-- What a writer has made of regions pushed in some order.  Every one of them has its fate.  An
address is covered by the map, under any kind, as often as by the regions accepted; those that are
not available stand in the map as they came, in their order.  The entries fit into the buffer, and
no count exceeds the number of pushes. -/
structure Tally (buffer regions : List Region) (w : MapWriter) (history : List (Region × Fate)) :
    Prop where
  regions_eq : history.map Prod.fst = regions
  runs : (start buffer).Runs history w
  coverage_eq : ∀ kind x, coverage w.finish kind x = coverage (accepted history) kind x
  kept_eq : kept w.finish = kept (accepted history)
  used_eq : w.used = tally .stored history
  dropped_eq : w.dropped = tally .dropped history
  used_le : w.used ≤ buffer.length
  length_eq : w.buffer.length = buffer.length
  counts_le : w.used + w.dropped ≤ regions.length

/-- **The writer neither loses nor adds memory**, in whatever order regions are pushed and however
they overlap, as long as each ends at an address: no number on the way is too large for a word, and
the one history of the pushes tells where every region went. -/
theorem pushAll_tally {regions : List Region} (h : ∀ r ∈ regions, r.limit < wordLimit)
    (buffer : List Region) :
    ∃ w, (start buffer).pushAll regions = some w ∧ ∃! history, Tally buffer regions w history := by
  obtain ⟨w, history, hpush, hsound, hmap, hruns⟩ := (sound_start buffer).pushAll h
  have haccounts := hruns.accounts (by rw [hmap]; exact fun r hr => Nat.le_of_lt (h r hr))
  have hempty : (start buffer).finish = [] := by simp [finish, start]
  have hused : w.used = tally .stored history := by
    rw [← hsound.length_finish, haccounts.length_eq, hempty]
    simp
  have hdropped : w.dropped = tally .dropped history := by
    rw [haccounts.dropped_eq]
    simp [start]
  refine ⟨w, hpush, history, ?_, ?_⟩
  · constructor
    case regions_eq => exact hmap
    case runs => exact hruns
    case coverage_eq =>
      intro kind x
      rw [haccounts.coverage_eq, hempty]
      simp [coverage]
    case kept_eq =>
      rw [haccounts.kept_eq, hempty]
      simp [kept]
    case used_eq => exact hused
    case dropped_eq => exact hdropped
    case used_le => rw [← hsound.length_eq]; exact hsound.used_le
    case length_eq => exact hsound.length_eq
    case counts_le =>
      rw [hused, hdropped, ← hmap, List.length_map]
      exact tally_add_tally_le history
  · intro other hother
    exact hother.runs.history_unique hruns (hother.regions_eq.trans hmap.symm)

/-- Regions out of order that overlap, for a buffer of two: one is merged after another was
dropped. -/
def shuffledMap : List Region :=
  [⟨0x1000, 4, .reserved⟩, ⟨0x4000, 1, .available⟩, ⟨0x9000, 0, .available⟩,
    ⟨0x2000, 1, .loaderData⟩, ⟨0x5000, 2, .available⟩, ⟨0x4000, 1, .available⟩]

theorem pushAll_tally_shuffled :
    ∃ w, (start [default, default]).pushAll shuffledMap = some w ∧
      w.finish = [⟨0x1000, 4, .reserved⟩, ⟨0x4000, 3, .available⟩] ∧ w.dropped = 2 ∧
      ∃! history, Tally [default, default] shuffledMap w history := by
  have hlimits : ∀ r ∈ shuffledMap, r.limit < wordLimit := by decide
  obtain ⟨w, hpush, htally⟩ := pushAll_tally hlimits [default, default]
  have hrun : (start [default, default]).pushAll shuffledMap =
      some ⟨[⟨0x1000, 4, .reserved⟩, ⟨0x4000, 3, .available⟩], 2, 2⟩ := by decide
  obtain rfl := Option.some.inj (hpush.symm.trans hrun)
  exact ⟨_, hpush, rfl, rfl, htally⟩

end MapWriter

end ElfBoot.Handoff
