import ElfBoot.Proofs.Host.Machine

/-!
# Reading into a buffer, call by call

A file that delivers at most a chunk at a time is asked again and again until the buffer is full,
the file has no more bytes, or a read fails.  The positions at which it is asked depend on the chunk
size, but not how it ends.

* `visited` — the positions at which a file is asked for bytes; `visited_of_lt` takes the first one
  off.
* `Machine.FillsTo`, `Machine.FillsTo.step` — the end of a read and its events, from a position and
  a number of missing bytes; one partial read in front of the others.
* `Machine.fillsTo_of_mem_visited`, `Machine.fillsTo_visited` — reads that meet a fault, and those
  that do not.
* `Machine.readInto_exact` — reading into a buffer.
-/

set_option autoImplicit false

namespace ElfBoot.Host

/-! ## Where a file is asked -/

/-- The positions at which `len` bytes from `position` on are asked for, in a file of `size` bytes
that delivers `chunk` bytes at a time: one for each chunk in front of the end, and the end of the
file if bytes are missing there. -/
def visited (chunk position len size : Nat) : List Nat :=
  if len = 0 then []
  else (List.range' position len chunk).takeWhile (· < min (position + len) size) ++
    if size < position + len then [max position size] else []

section Visited

variable {chunk position len size q : Nat}

theorem takeWhile_range'_eq_nil {start bound : Nat} (h : bound ≤ start) (n : Nat) :
    (List.range' start n chunk).takeWhile (· < bound) = [] := by
  cases n with
  | zero => simp
  | succ n => simp [List.range'_succ, h]

/-- More positions than are below the bound make no difference. -/
theorem takeWhile_range'_eq {start bound n n' : Nat} (hle : n ≤ n')
    (h : bound ≤ start + chunk * n) :
    (List.range' start n' chunk).takeWhile (· < bound) =
      (List.range' start n chunk).takeWhile (· < bound) := by
  induction n generalizing start n' with
  | zero =>
    rw [takeWhile_range'_eq_nil (by simpa using h), takeWhile_range'_eq_nil (by simpa using h)]
  | succ n ih =>
    obtain ⟨k, rfl⟩ := Nat.exists_eq_add_of_le' (Nat.le_trans (Nat.succ_pos n) hle)
    have hnext : bound ≤ start + chunk + chunk * n := by
      rw [Nat.mul_succ] at h
      omega
    rw [List.range'_succ, List.range'_succ, List.takeWhile_cons, List.takeWhile_cons,
      ih (by omega) hnext]

@[simp] theorem visited_zero : visited chunk position 0 size = [] := rfl

/-- Behind the end of the file there is one more position. -/
theorem visited_of_le (hpos : 0 < len) (h : size ≤ position) :
    visited chunk position len size = [position] := by
  unfold visited
  rw [if_neg (Nat.ne_of_gt hpos), takeWhile_range'_eq_nil (by omega), if_pos (by omega),
    Nat.max_eq_left h, List.nil_append]

/-- **The first position**, and those that are left after the bytes delivered there. -/
theorem visited_of_lt (hchunk : 0 < chunk) (hpos : 0 < len) (h : position < size) :
    visited chunk position len size =
      position :: visited chunk (position + min (min len chunk) (size - position))
        (len - min (min len chunk) (size - position)) size := by
  have hfirst : visited chunk position len size =
      position :: ((List.range' (position + chunk) (len - 1) chunk).takeWhile
        (· < min (position + len) size) ++
          if size < position + len then [max position size] else []) := by
    obtain ⟨l, rfl⟩ := Nat.exists_eq_add_of_le' hpos
    have hbelow : position < min (position + (l + 1)) size := by omega
    simp only [visited, List.range'_succ, List.takeWhile_cons, hbelow, decide_true, if_true,
      Nat.succ_ne_zero, if_false, List.cons_append, Nat.add_sub_cancel]
  rw [hfirst]
  congr 1
  by_cases hall : len ≤ chunk ∧ len ≤ size - position
  · -- all that is missing is delivered at once
    have hn : min (min len chunk) (size - position) = len := by omega
    rw [hn, Nat.sub_self, visited_zero, takeWhile_range'_eq_nil (by omega), if_neg (by omega),
      List.nil_append]
  by_cases hend : size - position < chunk
  · -- the file ends within the chunk
    have hn : min (min len chunk) (size - position) = size - position := by omega
    rw [hn, visited_of_le (by omega) (by omega), takeWhile_range'_eq_nil (by omega),
      if_pos (by omega), List.nil_append]
    congr 1
    omega
  · have hn : min (min len chunk) (size - position) = chunk := by omega
    have hsum : position + chunk + (len - chunk) = position + len := by omega
    have hmax : max (position + chunk) size = max position size := by omega
    have hmul : len - chunk ≤ chunk * (len - chunk) := Nat.le_mul_of_pos_left _ hchunk
    have hleft : len - chunk ≠ 0 := by omega
    rw [hn, visited, if_neg hleft, hsum, hmax,
      takeWhile_range'_eq (n := len - chunk) (by omega) (by omega)]

theorem bounds_of_mem_visited (hq : q ∈ visited chunk position len size) :
    position ≤ q ∧ q ≤ position + len ∧ q ≤ max position size := by
  unfold visited at hq
  split at hq
  · simp at hq
  rcases List.mem_append.1 hq with hq | hq
  · have hlt := List.all_eq_true.1 List.all_takeWhile q hq
    have hmem := (List.takeWhile_sublist _).subset hq
    rw [List.mem_range'] at hmem
    simp only [decide_eq_true_eq] at hlt
    omega
  · split at hq
    · simp only [List.mem_singleton] at hq
      omega
    · simp at hq

end Visited

/-! ## One partial read after another -/

namespace File

/-- A read of `n` bytes at a position, with what the file answers there. -/
def readEvent (f : File) (position n : Nat) : Event := ⟨.read n, ((f.at position).read n).1⟩

/-- Reads of at most `len` bytes are cut short at `chunk` bytes. -/
structure CutsAt (f : File) (chunk len : Nat) : Prop where
  chunk_pos : 0 < chunk
  reach_eq : ∀ n ≤ len, f.reach n = min n chunk

variable {f : File} {chunk len position : Nat}

theorem CutsAt.mono {len' : Nat} (h : f.CutsAt chunk len) (hle : len' ≤ len) :
    f.CutsAt chunk len' :=
  ⟨h.chunk_pos, fun n hn => h.reach_eq n (Nat.le_trans hn hle)⟩

theorem cutsAt_of_chunk (hchunk : f.traits.chunk = some chunk) (hpos : 0 < chunk) (len : Nat) :
    f.CutsAt chunk len := by
  refine ⟨hpos, fun n _ => ?_⟩
  rw [reach, hchunk]
  show min n (max chunk 1) = min n chunk
  rw [Nat.max_eq_left hpos]

/-- Every file cuts reads short somewhere, be it behind all that is asked for. -/
theorem exists_cutsAt (f : File) (len : Nat) : ∃ chunk, f.CutsAt chunk len := by
  cases hchunk : f.traits.chunk with
  | none =>
    refine ⟨len + 1, Nat.succ_pos len, fun n hn => ?_⟩
    rw [reach, hchunk]
    show n = min n (len + 1)
    omega
  | some c =>
    refine ⟨max c 1, by omega, fun n _ => ?_⟩
    rw [reach, hchunk]

theorem available_at (position : Nat) (hcut : f.CutsAt chunk len) {n : Nat} (hn : n ≤ len) :
    (f.at position).available n =
      (f.content.drop position).take (min (min n chunk) (f.content.length - position)) := by
  have hreach : (f.at position).reach n = min n chunk := hcut.reach_eq n hn
  rw [available, hreach]
  show (f.content.drop position).take (min n chunk) = _
  rw [List.take_eq_take_min, List.length_drop]

end File

namespace Machine

/-- The machine with a file open. -/
def withFile (m : Machine) (f : File) : Machine := { m with file := some f }

variable {m : Machine} {f : File} {chunk expected missing position stop q : Nat}
  {ending : Except LoadError Unit} {asked : List Nat}

/-- A read with some bytes missing, from a position on, ends with the file at `stop`, and with all
bytes in front of it delivered; it asks at the positions in `asked`. -/
def FillsTo (m : Machine) (f : File) (expected position missing stop : Nat)
    (ending : Except LoadError Unit) (asked : List Nat) : Prop :=
  ∀ delivered, Program.ending handler (Load.fillMore expected missing delivered)
      (m.withFile (f.at position)) =
    (.done (delivered.reverse ++ (f.content.drop position).take (stop - position), ending),
      m.withFile (f.at stop), asked.map fun x => f.readEvent x (position + missing - x))

theorem reply_read (m : Machine) (g : File) (n : Nat) :
    handler.reply (.read n) (m.withFile g) =
      some { answer := (g.read n).1, state := m.withFile (g.read n).2 } := rfl

theorem fillsTo_zero : m.FillsTo f expected position 0 position (.ok ()) [] := by
  intro delivered
  rw [Load.fillMore]
  simp [Program.ending, Program.run]

theorem fillsTo_of_fault (hpos : 0 < missing) (hfault : f.traits.failRead = some position) :
    m.FillsTo f expected position missing position
      (.error (.io (.readFailed File.readFailure))) [position] := by
  intro delivered
  have hread : (f.at position).read missing =
      (.error (.readFailed File.readFailure), f.at position) := if_pos hfault
  rw [Load.fillMore, dif_neg (Nat.ne_of_gt hpos), Program.ending_call, reply_read]
  simp only [List.map_cons, List.map_nil, Nat.add_sub_cancel_left]
  simp [File.readEvent, hread, Program.ending, Program.run, withEvents]

/-- A read that does not fail delivers what is available. -/
theorem read_at (hsafe : f.traits.failRead ≠ some position) {bs : List UInt8}
    (hbs : (f.at position).available missing = bs) :
    ∃ hlen, (f.at position).read missing = (.ok ⟨bs, hlen⟩, f.at (position + bs.length)) := by
  subst hbs
  exact ⟨_, if_neg hsafe⟩

theorem fillsTo_of_end (hpos : 0 < missing) (hsafe : f.traits.failRead ≠ some position)
    (hend : f.content.length ≤ position) :
    m.FillsTo f expected position missing position
      (.error (.io (.shortRead expected (expected - missing)))) [position] := by
  intro delivered
  have hnone : (f.at position).available missing = [] := by
    show ((f.content.drop position).take _) = []
    rw [List.drop_eq_nil_of_le hend, List.take_nil]
  obtain ⟨hlen, hread⟩ := read_at hsafe hnone
  rw [Load.fillMore, dif_neg (Nat.ne_of_gt hpos), Program.ending_call, reply_read]
  simp only [List.map_cons, List.map_nil, Nat.add_sub_cancel_left]
  simp [File.readEvent, hread, Program.ending, Program.run, withEvents]

/-- **One partial read** in front of the others. -/
theorem FillsTo.step (hcut : f.CutsAt chunk missing) (hpos : 0 < missing)
    (hsafe : f.traits.failRead ≠ some position) (hlt : position < f.content.length)
    {n : Nat} (hn : n = min (min missing chunk) (f.content.length - position))
    (hle : position + n ≤ stop)
    (h : m.FillsTo f expected (position + n) (missing - n) stop ending asked) :
    m.FillsTo f expected position missing stop ending (position :: asked) := by
  intro delivered
  have hchunk := hcut.chunk_pos
  have havailable := File.available_at position hcut (Nat.le_refl missing)
  rw [← hn] at havailable
  generalize hbs : (f.content.drop position).take n = bs at havailable
  have hlength : bs.length = n := by
    rw [← hbs, List.length_take, List.length_drop]
    omega
  obtain ⟨hlen, hread⟩ := read_at hsafe havailable
  have hsum : position + n + (missing - n) = position + missing := by omega
  have hsplit : (f.content.drop position).take (stop - position) =
      bs ++ (f.content.drop (position + n)).take (stop - (position + n)) := by
    have htake := take_drop_eq_append (n := stop - position) (hlength.symm ▸ hbs.symm) (by omega)
    rwa [hlength, Nat.sub_sub] at htake
  rw [Load.fillMore, dif_neg (Nat.ne_of_gt hpos), Program.ending_call, reply_read]
  simp only [List.map_cons, Nat.add_sub_cancel_left]
  cases bs with
  | nil =>
    rw [List.length_nil] at hlength
    omega
  | cons b bs =>
    have hrest := h (bs.reverse ++ b :: delivered)
    rw [List.length_cons] at hlength
    rw [hsum, ← hlength] at hrest
    simp only [File.readEvent, hread, List.length_cons, hrest, hsplit, withEvents]
    simp [hlength]

/-! ## Whole reads -/

/-- **A read that comes to a fault** ends there. -/
theorem fillsTo_of_mem_visited (hcut : f.CutsAt chunk missing) (hfault : f.traits.failRead = some q)
    (hq : q ∈ visited chunk position missing f.content.length) :
    m.FillsTo f expected position missing q (.error (.io (.readFailed File.readFailure)))
      ((visited chunk position missing f.content.length).takeWhile (· ≠ q) ++ [q]) := by
  induction missing using Nat.strongRecOn generalizing position with
  | ind missing ih =>
  by_cases hzero : missing = 0
  · subst hzero
    simp at hq
  have hpos : 0 < missing := Nat.pos_of_ne_zero hzero
  by_cases hhere : position = q
  · subst hhere
    have hfirst :
        (visited chunk position missing f.content.length).takeWhile (· ≠ position) = [] := by
      by_cases hlt : position < f.content.length
      · rw [visited_of_lt hcut.chunk_pos hpos hlt]
        simp
      · rw [visited_of_le hpos (Nat.not_lt.1 hlt)]
        simp
    rw [hfirst]
    exact fillsTo_of_fault hpos hfault
  have hsafe : f.traits.failRead ≠ some position := by
    rw [hfault]
    simpa using Ne.symm hhere
  by_cases hlt : position < f.content.length
  · rw [visited_of_lt hcut.chunk_pos hpos hlt] at hq ⊢
    have hrest := (List.mem_cons.1 hq).resolve_left (Ne.symm hhere)
    have hbounds := bounds_of_mem_visited hrest
    have hchunk := hcut.chunk_pos
    have hnext := ih _ (by omega) (hcut.mono (by omega)) hrest
    rw [List.takeWhile_cons_of_pos (by simpa using hhere), List.cons_append]
    exact hnext.step hcut hpos hsafe hlt rfl hbounds.1
  · rw [visited_of_le hpos (Nat.not_lt.1 hlt), List.mem_singleton] at hq
    exact absurd hq.symm hhere

/-- **A read that comes to no fault** delivers what is asked for, or all that there is. -/
theorem fillsTo_visited (hcut : f.CutsAt chunk missing) (hle : missing ≤ expected)
    (hsafe : ∀ x ∈ visited chunk position missing f.content.length, f.traits.failRead ≠ some x) :
    m.FillsTo f expected position missing
      (min (position + missing) (max position f.content.length))
      (if missing = 0 ∨ position + missing ≤ f.content.length then .ok ()
        else .error (.io (.shortRead expected
          (expected - missing + (f.content.length - position)))))
      (visited chunk position missing f.content.length) := by
  induction missing using Nat.strongRecOn generalizing position with
  | ind missing ih =>
  by_cases hzero : missing = 0
  · subst hzero
    have hstop : min (position + 0) (max position f.content.length) = position := by omega
    rw [hstop, if_pos (Or.inl rfl)]
    exact fillsTo_zero
  have hpos : 0 < missing := Nat.pos_of_ne_zero hzero
  by_cases hlt : position < f.content.length
  · rw [visited_of_lt hcut.chunk_pos hpos hlt, List.forall_mem_cons] at hsafe
    rw [visited_of_lt hcut.chunk_pos hpos hlt]
    have hchunk := hcut.chunk_pos
    have hnext := ih _ (by omega) (hcut.mono (by omega)) (by omega) hsafe.2
    generalize hn : min (min missing chunk) (f.content.length - position) = n at hnext ⊢
    -- what is left of the read ends where the whole does, and for the same reason
    have hsum : position + n + (missing - n) = position + missing := by omega
    have hmax : max (position + n) f.content.length = max position f.content.length := by omega
    have hwhole : missing - n = 0 ∨ position + missing ≤ f.content.length ↔
        missing = 0 ∨ position + missing ≤ f.content.length := by omega
    have hcount : expected - (missing - n) + (f.content.length - (position + n)) =
        expected - missing + (f.content.length - position) := by omega
    simp only [hsum, hmax, hwhole, hcount] at hnext
    exact hnext.step hcut hpos hsafe.1 hlt hn.symm (by omega)
  · have hend := Nat.not_lt.1 hlt
    rw [visited_of_le hpos hend] at hsafe ⊢
    have hstop : min (position + missing) (max position f.content.length) = position := by omega
    rw [hstop, if_neg (by omega), Nat.sub_eq_zero_of_le hend, Nat.add_zero]
    exact fillsTo_of_end hpos (hsafe position (by simp)) hend

/-- Reading into a buffer ended with the file at `stop`: the bytes in front of `stop` are in the
buffer, which is otherwise as it was, and the file was asked once at each position in `asked`, for
what was missing there. -/
structure ReadsInto (m : Machine) (f : File) (buffer : List UInt8) (stop : Nat)
    (ending : Except LoadError Unit) (asked : List Nat) : Prop where
  outcome : (Program.run handler (Load.readInto buffer) m).outcome =
    .done ((f.content.drop f.position).take (stop - f.position) ++
      buffer.drop (stop - f.position), ending)
  filled : stop - f.position ≤ buffer.length ∧
    stop - f.position ≤ f.content.length - f.position
  state : (Program.run handler (Load.readInto buffer) m).state = m.withFile (f.at stop)
  events : (Program.run handler (Load.readInto buffer) m).events =
    asked.map fun x => f.readEvent x (f.position + buffer.length - x)

theorem FillsTo.readsInto {buffer : List UInt8} (hfile : m.file = some f)
    (h : m.FillsTo f buffer.length f.position buffer.length stop ending asked)
    (hbuffer : stop - f.position ≤ buffer.length)
    (hcontent : stop - f.position ≤ f.content.length - f.position) :
    m.ReadsInto f buffer stop ending asked := by
  have hm : m.withFile (f.at f.position) = m := by
    show { m with file := some f } = m
    rw [← hfile]
  have hlength : ((f.content.drop f.position).take (stop - f.position)).length =
      stop - f.position := by
    rw [List.length_take, List.length_drop]
    omega
  have hrun : Program.ending handler (Load.readInto buffer) m =
      (.done ((f.content.drop f.position).take (stop - f.position) ++
        buffer.drop (stop - f.position), ending), m.withFile (f.at stop),
        asked.map fun x => f.readEvent x (f.position + buffer.length - x)) := by
    have hfill := h []
    rw [hm] at hfill
    show Program.ending handler ((Load.fill buffer.length).bind _) m = _
    rw [Program.ending_bind, Load.fill, hfill]
    simp only [List.reverse_nil, List.nil_append, hlength]
    show (_, _, _ ++ []) = _
    rw [List.append_nil]
    rfl
  simp only [Program.ending, Prod.mk.injEq] at hrun
  exact ⟨hrun.1, ⟨hbuffer, hcontent⟩, hrun.2.1, hrun.2.2⟩

theorem readsInto_visited {buffer : List UInt8} (hfile : m.file = some f)
    (hcut : f.CutsAt chunk buffer.length)
    (hsafe : ∀ x ∈ visited chunk f.position buffer.length f.content.length,
      f.traits.failRead ≠ some x) :
    m.ReadsInto f buffer (min (f.position + buffer.length) (max f.position f.content.length))
      (if buffer.length = 0 ∨ f.position + buffer.length ≤ f.content.length then .ok ()
        else .error (.io (.shortRead buffer.length (f.content.length - f.position))))
      (visited chunk f.position buffer.length f.content.length) := by
  have hfills := fillsTo_visited (m := m) hcut (Nat.le_refl buffer.length) hsafe
  rw [Nat.sub_self, Nat.zero_add] at hfills
  exact hfills.readsInto hfile (by omega) (by omega)

/-- **Reading into a buffer** from a file that delivers at most `chunk` bytes at a time.  If one of
the positions at which the file is asked is made to fail, the read ends there.  Otherwise it ends
well if nothing is asked for or enough bytes are left, and else says how many there were.  Without a
fault the end is the same for every file with these bytes, however it splits its reads. -/
theorem readInto_exact (hfile : m.file = some f) (hchunk : f.traits.chunk = some chunk)
    (hpos : 0 < chunk) (buffer : List UInt8) :
    let asked := visited chunk f.position buffer.length f.content.length
    (∀ q ∈ asked, f.traits.failRead = some q →
      m.ReadsInto f buffer q (.error (.io (.readFailed File.readFailure)))
        (asked.takeWhile (· ≠ q) ++ [q])) ∧
    ((∀ q ∈ asked, f.traits.failRead ≠ some q) →
      (buffer.length = 0 ∨ f.position + buffer.length ≤ f.content.length →
        m.ReadsInto f buffer (f.position + buffer.length) (.ok ()) asked) ∧
      (¬ (buffer.length = 0 ∨ f.position + buffer.length ≤ f.content.length) →
        m.ReadsInto f buffer (max f.position f.content.length)
          (.error (.io (.shortRead buffer.length (f.content.length - f.position)))) asked)) ∧
    (f.traits.failRead = none → ∀ (m' : Machine) (f' : File), m'.file = some f' →
      f'.content = f.content → f'.position = f.position → f'.traits.failRead = none →
      (Program.run handler (Load.readInto buffer) m').outcome =
        (Program.run handler (Load.readInto buffer) m).outcome ∧
      (Program.run handler (Load.readInto buffer) m').state.file.map File.position =
        (Program.run handler (Load.readInto buffer) m).state.file.map File.position) := by
  intro asked
  have hcut := File.cutsAt_of_chunk hchunk hpos buffer.length
  refine ⟨?_, ?_, ?_⟩
  · intro q hq hfault
    have hbounds := bounds_of_mem_visited hq
    exact (fillsTo_of_mem_visited hcut hfault hq).readsInto hfile (by omega) (by omega)
  · intro hsafe
    have hread := readsInto_visited hfile hcut hsafe
    constructor
    · intro hwhole
      have hstop : min (f.position + buffer.length) (max f.position f.content.length) =
          f.position + buffer.length := by omega
      rwa [hstop, if_pos hwhole] at hread
    · intro hshort
      have hstop : min (f.position + buffer.length) (max f.position f.content.length) =
          max f.position f.content.length := by omega
      rwa [hstop, if_neg hshort] at hread
  · intro hnone m' f' hfile' hcontent hposition hnone'
    obtain ⟨chunk', hcut'⟩ := f'.exists_cutsAt buffer.length
    have hread := readsInto_visited hfile hcut (by simp [hnone])
    have hread' := readsInto_visited hfile' hcut' (by simp [hnone'])
    rw [hcontent, hposition] at hread'
    have houtcome := hread'.outcome
    rw [hcontent, hposition] at houtcome
    rw [houtcome, hread.outcome, hread.state, hread'.state]
    exact ⟨rfl, rfl⟩

/-- Ten bytes, read two at a time from the third one on. -/
def pairedFile (fault : Option Nat) : File where
  content := [0, 1, 2, 3, 4, 5, 6, 7, 8, 9]
  traits := { chunk := some 2, failRead := fault }
  position := 2

/-- A fault at the third read leaves the last two bytes of the buffer alone; without one, a buffer
that is too long is filled up to the end of the file. -/
theorem readInto_exact_sample :
    ReadsInto { file := some (pairedFile (some 6)) } (pairedFile (some 6)) (List.replicate 6 0xEE) 6
        (.error (.io (.readFailed File.readFailure))) [2, 4, 6] ∧
      ReadsInto { file := some (pairedFile none) } (pairedFile none) (List.replicate 20 0xEE) 10
        (.error (.io (.shortRead 20 8))) [2, 4, 6, 8, 10] := by
  have hfault := readInto_exact (m := { file := some (pairedFile (some 6)) }) rfl rfl
    (by decide : 0 < 2) (List.replicate 6 0xEE)
  have hshort := readInto_exact (m := { file := some (pairedFile none) }) rfl rfl
    (by decide : 0 < 2) (List.replicate 20 0xEE)
  exact ⟨hfault.1 6 (by decide) rfl, (hshort.2.1 (by decide)).2 (by decide)⟩

end Machine

end ElfBoot.Host
