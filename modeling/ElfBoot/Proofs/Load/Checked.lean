import ElfBoot.Load.Checked
import ElfBoot.Proofs.Image.Built
import ElfBoot.Proofs.Load.Refusal
import ElfBoot.Proofs.Load.Steps
import ElfBoot.Proofs.Program.Yields

/-!
# What the checked operations give

A checked operation has a result wherever the bytes are there and the numbers are words, and it
is then the result of the plain one.

* `Load.Checked.fillBuffer_eq`, `Load.Checked.readExact_eq` — reading into a buffer; the part that
  is filled holds the bytes read so far.
* `Load.yields_readExact` — how many bytes a read ends with, whatever was answered;
  `Load.Checked.read_bind_congr` lets what follows rely on it.
* `Table.header?_eq`, `Table.entriesFrom?_zero` — the entries of a table by position.
* `Load.Checked.pageCount_eq`, `Load.Checked.segment_eq`, `Load.Checked.makePlan_eq` — checking a
  table.
-/

set_option autoImplicit false

namespace ElfBoot

theorem slice?_eq {bs : List UInt8} {lo hi : Nat} (hle : lo ≤ hi) (hhi : hi ≤ bs.length) :
    slice? bs lo hi = some ((bs.drop lo).take (hi - lo)) := if_pos ⟨hle, hhi⟩

/-- From the length of the front on, the slice up to the end is the rest. -/
theorem slice?_append (front tail : List UInt8) :
    slice? (front ++ tail) front.length (front ++ tail).length = some tail := by
  have hle : front.length ≤ (front ++ tail).length := by simp
  rw [slice?_eq hle (Nat.le_refl _), List.drop_left, List.length_append, Nat.add_sub_cancel_left,
    List.take_length]

namespace Load

/-! ## Reading -/

/-- Filling a buffer goes on with what is missing: the bytes read before stand in front, in the
order in which they came. -/
theorem Checked.fillBuffer_eq {expected missing : Nat} (delivered tail : List UInt8)
    (htail : tail.length = missing) (hexpected : expected = delivered.length + missing)
    (hword : expected < wordLimit) :
    fillBuffer expected delivered.length (delivered.reverse ++ tail) =
      (fillMore expected missing delivered).bind fun p => .done (p.2.map fun _ => p.1) := by
  induction missing using Nat.strongRecOn generalizing delivered tail with
  | ind missing ih =>
  rw [fillBuffer, fillMore]
  by_cases hzero : missing = 0
  · have hnil : tail = [] := List.length_eq_zero_iff.1 (htail.trans hzero)
    rw [dif_neg (by omega), dif_pos hzero, hnil, List.append_nil]
    rfl
  have hrest := slice?_append delivered.reverse tail
  rw [List.length_reverse] at hrest
  rw [dif_pos (by omega), dif_neg hzero, hrest]
  subst htail
  simp only [Program.bind, Program.call.injEq, heq_eq_eq, true_and]
  funext answer
  rcases answer with e | ⟨_ | ⟨b, bs⟩, hbs⟩
  · rfl
  · have hfilled : expected - tail.length = delivered.length := by omega
    rw [← hfilled]
    rfl
  · have hle : bs.length + 1 ≤ tail.length := hbs
    have hnext := ih (tail.length - (bs.length + 1)) (by omega) (bs.reverse ++ b :: delivered)
      (tail.drop (bs.length + 1)) List.length_drop (by simp; omega)
    -- the bytes of this read move from the rest of the buffer to its front
    have hover : overlay (delivered.reverse ++ tail) delivered.length (b :: bs) =
        (bs.reverse ++ b :: delivered).reverse ++ tail.drop (bs.length + 1) := by
      rw [← List.length_reverse, overlay_append]
      simp
    have hlength : (bs.reverse ++ b :: delivered).length = delivered.length + (bs.length + 1) := by
      simp
      omega
    rw [hlength, ← hover] at hnext
    have hadd : Address.add? delivered.length (bs.length + 1) =
        some (delivered.length + (bs.length + 1)) := Address.add?_eq_some_iff.2 ⟨by omega, rfl⟩
    simp only [hadd]
    exact hnext

/-- Reading into a buffer is reading, as long as a word can count the bytes. -/
theorem Checked.readExact_eq {n : Nat} (h : n < wordLimit) :
    readExact n = Load.readExact n := by
  have hfill := fillBuffer_eq [] (List.replicate n 0) List.length_replicate
    (Nat.zero_add n).symm h
  have hmk := congrArg ExceptT.mk hfill
  exact hmk

theorem yields_fillMore {expected missing : Nat} (delivered : List UInt8) :
    (fillMore expected missing delivered).Yields fun p =>
      p.2 = .ok () → p.1.length = delivered.length + missing := by
  induction missing using Nat.strongRecOn generalizing delivered with
  | ind missing ih =>
  rw [fillMore]
  by_cases hzero : missing = 0
  · rw [dif_pos hzero]
    intro _
    simp [hzero]
  rw [dif_neg hzero]
  rintro (e | ⟨_ | ⟨b, bs⟩, hbs⟩)
  · intro hno
    cases hno
  · intro hno
    cases hno
  · have hle : bs.length + 1 ≤ missing := hbs
    refine (ih (missing - (bs.length + 1)) (by omega) (bs.reverse ++ b :: delivered)).mono ?_
    intro p hp hdone
    rw [hp hdone]
    simp
    omega

/-- **Reading exactly** yields as many bytes as were asked for. -/
theorem yields_readExact (n : Nat) : Yields (readExact n) fun bs => bs.length = n := by
  refine Program.Yields.bind (yields_fillMore []) fun p hp => ?_
  obtain ⟨delivered, ending⟩ := p
  cases ending with
  | ok u =>
    have hlength := hp rfl
    rwa [List.length_nil, Nat.zero_add] at hlength
  | error e => exact trivial

/-- What follows reading exactly may rely on the number of bytes. -/
theorem Checked.read_bind_congr {α : Type} {n : Nat} (h : n < wordLimit)
    {describe : LoadError → Notice} {f g : List UInt8 → Load α}
    (hfg : ∀ bs, bs.length = n → f bs = g bs) :
    reporting describe (readExact n) >>= f = reporting describe (Load.readExact n) >>= g := by
  rw [readExact_eq h]
  exact ((yields_readExact n).reporting describe).bind_congr hfg

end Load

/-! ## Tables by positions -/

namespace Table

variable {t : Table}

theorem stride_pos (t : Table) : 0 < t.stride :=
  Nat.lt_of_lt_of_le t.width.entrySize_pos t.entrySize_le

theorem count_le (t : Table) : t.count ≤ t.blob.length := by
  rw [t.length_eq]
  exact Nat.le_mul_of_pos_right t.count t.stride_pos

theorem size?_eq (t : Table) : t.size? = some t.count := by
  rw [size?, Address.div?, if_neg (Nat.ne_of_gt t.stride_pos), t.length_eq,
    Nat.mul_div_cancel _ t.stride_pos]

/-- Looking up a position is looking up an entry, for bytes that a word can count. -/
theorem header?_eq (h : t.blob.length < wordLimit) (i : Nat) : t.header? i = some (t.get? i) := by
  rw [header?, size?_eq, Option.bind_eq_bind, Option.bind_some]
  by_cases hi : i < t.count
  · have hend : i * t.stride + t.stride ≤ t.blob.length := by
      rw [t.length_eq, ← Nat.succ_mul]
      exact Nat.mul_le_mul_right t.stride hi
    have hstart : Address.mul? i t.stride = some (i * t.stride) :=
      Address.mul?_eq_some_iff.2 ⟨by omega, rfl⟩
    have hstop : Address.add? (i * t.stride) t.stride = some (i * t.stride + t.stride) :=
      Address.add?_eq_some_iff.2 ⟨by omega, rfl⟩
    have hbytes : slice? t.blob (i * t.stride) (i * t.stride + t.stride) = some (t.chunk i) := by
      rw [slice?_eq (Nat.le_add_right _ _) hend, Nat.add_sub_cancel_left, chunk]
    obtain ⟨header, hget, -⟩ := exists_get? hi
    rw [hget]
    rw [get?, if_pos hi] at hget
    rw [if_pos hi, hstart]
    simp only [Option.bind_eq_bind, Option.bind_some, hstop, hbytes, hget, Option.map_some]
  · rw [if_neg hi, get?, if_neg hi]
    rfl

theorem entriesFrom?_eq (h : t.blob.length < wordLimit) (i : Nat) :
    t.entriesFrom? i = some ((List.range' i (t.count - i)).filterMap fun j =>
      (t.get? j).map fun header => (header, j)) := by
  induction hn : t.count - i generalizing i with
  | zero =>
    have hget : t.get? i = none := by rw [get?, if_neg (by omega)]
    rw [entriesFrom?, header?_eq h, hget]
    rfl
  | succ n ih =>
    obtain ⟨header, hget, -⟩ := exists_get? (t := t) (i := i) (by omega)
    have hcount := t.count_le
    have hadd : Address.add? i 1 = some (i + 1) := Address.add?_eq_some_iff.2 ⟨by omega, rfl⟩
    rw [entriesFrom?, header?_eq h, hget]
    simp only [hadd, ih (i + 1) (by omega), List.range'_succ, List.filterMap_cons, hget,
      Option.map_some]

/-- **The entries of a table** are found one after another, with their positions. -/
theorem entriesFrom?_zero (h : t.blob.length < wordLimit) :
    t.entriesFrom? 0 = some t.entries.zipIdx := by
  rw [entriesFrom?_eq h, entries_zipIdx, List.range_eq_range', Nat.sub_zero]

end Table

namespace Load

/-! ## Plans -/

theorem Checked.pageCount_eq (s : Segment) : pageCount s = pure s.pageCount? := by
  have hlead : Address.sub? s.address s.pageBase = some (s.address - s.pageBase) :=
    Address.sub?_eq_some_iff.2 ⟨pageBase_le s.address, rfl⟩
  unfold pageCount Segment.pageCount?
  rw [hlead]
  unfold expect
  rw [pure_bind]
  cases hlen : Address.add? (s.address - s.pageBase) s.memorySize with
  | none => rfl
  | some len =>
    have hword := (Address.add?_eq_some_iff.1 hlen).1
    have heq := (Address.add?_eq_some_iff.1 hlen).2
    have hpages : Address.add? (len / pageSize) (if len % pageSize = 0 then 0 else 1) =
        some (pagesFor len) := by
      refine Address.add?_eq_some_iff.2 ⟨?_, rfl⟩
      unfold pageSize wordLimit at *
      split <;> omega
    simp only [hpages, pure_bind, Option.map_some]

theorem Checked.segment_eq (index : Nat) (h : ProgramHeader) :
    segment index h = check (Segment.ofHeader index h) := by
  unfold segment Segment.ofHeader
  by_cases hzero : h.zeroFill? = none
  · rw [if_pos hzero]
    simp only [if_pos hzero]
    rfl
  simp only [if_neg hzero]
  by_cases hends : (Address.add? (Segment.ofFields index h).fileOffset
      (Segment.ofFields index h).fileSize).isNone || (Segment.ofFields index h).end?.isNone
  · rw [if_pos hends, hends, Bool.true_or]
    rfl
  rw [if_neg hends, Bool.eq_false_iff.2 hends, Bool.false_or]
  have hsize : (Segment.ofFields index h).fileSize ≤ (Segment.ofFields index h).memorySize :=
    Decidable.byContradiction fun hlt => hzero (if_neg hlt)
  rw [Segment.zeroFill?_eq hsize, pageCount_eq]
  unfold expect
  rw [pure_bind, pure_bind]
  cases (Segment.ofFields index h).pageCount? with
  | none => rfl
  | some pages => rfl

theorem mapM_check {α β : Type} (f : β → Except LoadError α) (xs : List β) :
    xs.mapM (fun x => check (f x)) = check (xs.mapM f) := by
  induction xs with
  | nil => rfl
  | cons x xs ih =>
    rw [List.mapM_cons, List.mapM_cons, ih]
    cases f x with
    | error e => rfl
    | ok a =>
      cases xs.mapM f with
      | error e => rfl
      | ok as => rfl

/-- **Making a plan** of a table whose bytes a word can count. -/
theorem Checked.makePlan_eq {t : Table} (h : t.blob.length < wordLimit) :
    makePlan t = Load.makePlan t := by
  have hempty : t.isEmpty = t.blob.isEmpty := by
    have hlength := t.length_eq
    have hcount := t.count_le
    rw [Table.isEmpty, Bool.eq_iff_iff, beq_iff_eq, List.isEmpty_iff_length_eq_zero]
    constructor
    · intro hzero
      rw [hlength, hzero, Nat.zero_mul]
    · intro hzero
      omega
  unfold makePlan Load.makePlan Plan.ofTable
  rw [hempty]
  by_cases hnil : t.blob.isEmpty
  · simp only [if_pos hnil]
    rfl
  simp only [if_neg hnil, Table.entriesFrom?_zero h]
  unfold expect
  simp only [pure_bind, segment_eq, mapM_check]
  refine bind_congr fun _ => ?_
  unfold Plan.loadable
  cases (t.entries.zipIdx.filter fun p => p.1.isLoad).mapM fun p => Segment.ofHeader p.2 p.1 with
  | error e => rfl
  | ok segments =>
    cases segments with
    | nil => rfl
    | cons s rest => rfl

theorem yields_makePlan (t : Table) :
    Yields (makePlan t) fun plan => ∀ s ∈ plan.segments, s.Sound := by
  have hspec := Plan.ofTable_spec t
  refine yields_notes_bind (yields_check fun plan hplan => ?_)
  rw [hplan] at hspec
  exact (Plan.noneHolds_objections.1 hspec.2.2).1

end Load

end ElfBoot
