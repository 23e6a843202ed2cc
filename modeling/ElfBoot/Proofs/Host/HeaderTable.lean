import ElfBoot.Proofs.Host.Presented
import ElfBoot.Proofs.Load.Containment

/-!
# The table that a header names

Reading headers succeeds exactly if the file holds the file header and the whole table that the
header names, and if that table is one that is read at all.  What is found are then the headers
that stand in the file.  Whether or not it succeeds, no buffer is larger than a table may be, and
nothing of a table is read before its size was judged.

* `Image.TableBounded`, `Image.HoldsHeaders` — a header names a table that is read, and the file
  holds it.
* `Headers.ReadFrom` — headers that stand in a file.
* `Handler.Presents.readTable_exact`, `Handler.Presents.readHeaders_exact` — what is read from a
  file that is presented.
* `ReadingTalk`, `Load.conforms_readHeaders` — the calls of a reading, and that it makes no others.
* `received`, `Guarded` — the bytes that were delivered so far, and what they must say before a
  buffer or more bytes are asked for.
* `Load.readHeaders_named` — reading headers from any file, and with any collaborators.
-/

set_option autoImplicit false

namespace ElfBoot

/-! ## The headers that stand in a file -/

namespace Image

/-- The table that a file header names has room for a program header in each entry, and is no
larger than any table that is read. -/
def TableBounded (w : Width) (bs : List UInt8) : Prop :=
  w.entrySize ≤ (Field.phentsize w).read bs ∧
    (Field.phentsize w).read bs * (Field.phnum w).read bs ≤ maxTableSize

/-- The file holds the table that its header names; nothing is asked of an empty one. -/
def HoldsTable (w : Width) (bs : List UInt8) : Prop :=
  (Field.phnum w).read bs = 0 ∨ (TableBounded w bs ∧
    (Field.phoff w).read bs + (Field.phentsize w).read bs * (Field.phnum w).read bs ≤ bs.length)

/-- The file holds a file header and the table that it names. -/
def HoldsHeaders (w : Width) (bs : List UInt8) : Prop :=
  w.headerSize ≤ bs.length ∧ HoldsTable w bs

instance (w : Width) (bs : List UInt8) : Decidable (TableBounded w bs) :=
  inferInstanceAs (Decidable (_ ∧ _))

instance (w : Width) (bs : List UInt8) : Decidable (HoldsTable w bs) :=
  inferInstanceAs (Decidable (_ ∨ _))

instance (w : Width) (bs : List UInt8) : Decidable (HoldsHeaders w bs) :=
  inferInstanceAs (Decidable (_ ∧ _))

end Image

/-- The entries of a table are those that stand in the file, and there are as many as its header
says. -/
structure Table.ReadFrom (t : Table) (w : Width) (bs : List UInt8) : Prop where
  count : t.count = (Field.phnum w).read bs
  get : ∀ i < (Field.phnum w).read bs, ∃ header, t.get? i = some header ∧
    ProgramHeader.decode? w
      (bs.drop ((Field.phoff w).read bs + i * (Field.phentsize w).read bs)) = some header
  none : ∀ i, (Field.phnum w).read bs ≤ i → t.get? i = none

/-- Headers that stand in the file. -/
structure Headers.ReadFrom (found : Headers) (w : Width) (bs : List UInt8) : Prop where
  file : FileHeader.decode? w (bs.take w.headerSize) = some found.file
  table : found.table.ReadFrom w bs

namespace Table

theorem readFrom_empty {w : Width} {bs : List UInt8} (h : (Field.phnum w).read bs = 0) :
    (empty w).ReadFrom w bs := by
  constructor
  case count => exact h.symm
  case get =>
    intro i hi
    omega
  case none => exact fun i _ => get?_eq_none (Nat.zero_le i)

/-- An entry of a table whose bytes are a part of the file. -/
theorem chunk_eq {t : Table} {bs : List UInt8} {start : Nat}
    (hblob : t.blob = (bs.drop start).take (t.stride * t.count)) {i : Nat} (hi : i < t.count) :
    t.chunk i = (bs.drop (start + i * t.stride)).take t.stride := by
  have hle : (i + 1) * t.stride ≤ t.count * t.stride := Nat.mul_le_mul_right t.stride hi
  rw [Nat.add_mul, Nat.one_mul, Nat.mul_comm t.count] at hle
  rw [chunk, hblob, List.drop_take, List.take_take, List.drop_drop, Nat.min_eq_left (by omega)]

theorem readFrom_of_blob {t : Table} {bs : List UInt8}
    (hstride : t.stride = (Field.phentsize t.width).read bs)
    (hcount : t.count = (Field.phnum t.width).read bs)
    (hblob : t.blob = (bs.drop ((Field.phoff t.width).read bs)).take (t.stride * t.count)) :
    t.ReadFrom t.width bs := by
  constructor
  case count => exact hcount
  case get =>
    rw [← hcount, ← hstride]
    intro i hi
    have hlength := length_chunk hi
    have hlong : t.width.entrySize ≤ (t.chunk i).length := by
      rw [hlength]
      exact t.entrySize_le
    obtain ⟨header, hdecode, -⟩ := ProgramHeader.exists_decode hlong
    refine ⟨header, ?_, ?_⟩
    · rw [get?, if_pos hi, hdecode]
    · rw [chunk_eq hblob hi] at hdecode hlong
      rw [← hdecode, ProgramHeader.decode?_take hlong]
  case none =>
    intro i hi
    rw [← hcount] at hi
    exact get?_eq_none hi

end Table

/-! ## Reading from a file that is presented -/

namespace Handler.Presents

open Load (Ensures)

variable {σ : Type} {h : Handler σ} {contents : List UInt8} {At : Nat → σ → Prop}
  {position n : Nat} {s : σ}

/-- A read in front of what follows it, also where the file may end too early. -/
theorem read_bind_cases {α : Type} {Q : Except LoadError α → σ → Prop}
    (hfile : h.Presents contents At) (hat : At position s) (hpos : 0 < n)
    {describe : LoadError → Notice} {f : List UInt8 → Load α}
    (hok : position + n ≤ contents.length → ∀ s', At (position + n) s' →
      Ensures h (f ((contents.drop position).take n)) Q s')
    (hshort : contents.length < position + n → ∀ e s', Q (.error e) s') :
    Ensures h (Load.reporting describe (Load.readExact n) >>= f) Q s := by
  refine (Load.ensures_reporting.2 (Load.ensures_readExact hfile.read hat n)).bind ?_ ?_
  · rintro bs s' ⟨rfl, hlength, hat'⟩
    rw [List.length_take, List.length_drop] at hlength
    exact hok (by omega) s' hat'
  · intro e s' he
    rcases he with ⟨hlt, -⟩ | ⟨x, -, hno⟩
    · exact hshort hlt e s'
    · exact hno.elim

/-- **A table is read** exactly if the file holds it, and it is the one that stands there. -/
theorem readTable_exact (hfile : h.Presents contents At) (hat : At position s) {w : Width}
    {header : FileHeader} (hdesc : header.Describes w contents) :
    Ensures h (Load.readTable w header) (fun result _ =>
      match result with
      | .ok table => Image.HoldsTable w contents ∧ table.ReadFrom w contents
      | .error _ => ¬ Image.HoldsTable w contents) s := by
  unfold Image.HoldsTable Image.TableBounded
  by_cases hz : (Field.phnum w).read contents = 0
  · unfold Load.readTable
    rw [if_pos (hdesc.phnum_eq_zero_iff.2 hz)]
    exact Load.ensures_pure.2 ⟨Or.inl hz, Table.readFrom_empty hz⟩
  have hne : header.phnum ≠ 0 := fun hzero => hz (hdesc.phnum_eq_zero_iff.1 hzero)
  have hoffset : (Field.phoff w).read contents < wordLimit := by
    rw [← hdesc.phoff]
    exact header.phoff.toNat_lt
  rw [Load.readTable_eq _ _ hne, hdesc.phentsize, hdesc.tableSize_eq, hdesc.phoff]
  by_cases hsmall : (Field.phentsize w).read contents < w.entrySize
  · rw [if_pos hsmall]
    refine Load.ensures_note_bind.2 (Load.ensures_throw.2 ?_)
    rintro (hzero | ⟨⟨hle, -⟩, -⟩)
    · exact hz hzero
    · omega
  rw [if_neg hsmall]
  by_cases hlarge :
      maxTableSize < (Field.phentsize w).read contents * (Field.phnum w).read contents
  · rw [if_pos hlarge]
    refine Load.ensures_note_bind.2 (Load.ensures_throw.2 ?_)
    rintro (hzero | ⟨⟨-, hle⟩, -⟩)
    · exact hz hzero
    · omega
  rw [if_neg hlarge]
  have hstride := Nat.not_lt.1 hsmall
  have hpos : 0 < (Field.phentsize w).read contents * (Field.phnum w).read contents :=
    Nat.mul_pos (Nat.lt_of_lt_of_le w.entrySize_pos hstride) (Nat.pos_of_ne_zero hz)
  refine Load.ensures_note_bind.2 (hfile.seek_bind hat hoffset fun s₁ hat₁ => ?_)
  refine Load.ensures_note_bind.2 (hfile.buffer_bind hat₁ (Nat.not_lt.1 hlarge) fun s₂ hat₂ => ?_)
  refine Load.ensures_note_bind.2 (hfile.read_bind_cases hat₂ hpos ?_ ?_)
  · intro hlong s₃ hat₃
    have hlength : ((contents.drop ((Field.phoff w).read contents)).take
        ((Field.phentsize w).read contents * (Field.phnum w).read contents)).length =
        (Field.phnum w).read contents * (Field.phentsize w).read contents := by
      rw [List.length_take, List.length_drop, Nat.mul_comm ((Field.phnum w).read contents)]
      omega
    rw [Table.ofBlob?_eq hstride hlength]
    exact Load.ensures_pure.2 ⟨Or.inr ⟨⟨hstride, Nat.not_lt.1 hlarge⟩, hlong⟩,
      Table.readFrom_of_blob rfl rfl rfl⟩
  · rintro hshort e s₃ (hzero | ⟨-, hle⟩)
    · exact hz hzero
    · omega

/-- **Headers are read** exactly if the file holds them, and they are those that stand there. -/
theorem readHeaders_exact (hfile : h.Presents contents At) (hat : At position s) (w : Width) :
    Ensures h (Load.readHeaders (some w)) (fun result _ =>
      match result with
      | .ok found => Image.HoldsHeaders w contents ∧ found.ReadFrom w contents
      | .error _ => ¬ Image.HoldsHeaders w contents) s := by
  have hbuffer : w.headerSize ≤ maxTableSize := by cases w <;> decide
  have hpos : 0 < w.headerSize := by cases w <;> decide
  unfold Load.readHeaders
  refine Load.ensures_note_bind.2 (hfile.seek_bind hat (by decide) fun s₁ hat₁ => ?_)
  refine Load.ensures_note_bind.2 (hfile.buffer_bind hat₁ hbuffer fun s₂ hat₂ => ?_)
  refine Load.ensures_note_bind.2 (hfile.read_bind_cases hat₂ hpos ?_ ?_)
  · intro hlong s₃ hat₃
    rw [Nat.zero_add] at hlong
    have hlength : w.headerSize ≤ (contents.take w.headerSize).length := by
      rw [List.length_take]
      omega
    obtain ⟨header, hdecode, hdesc⟩ := FileHeader.exists_decode hlength
    rw [List.drop_zero, hdecode, Load.ensures_expect_bind]
    refine (hfile.readTable_exact hat₃ hdesc.of_take).bind ?_ ?_
    · rintro table s₄ ⟨hholds, htable⟩
      exact Load.ensures_pure.2 ⟨⟨hlong, hholds⟩, hdecode, htable⟩
    · intro e s₄ hno
      exact fun hholds => hno hholds.2
  · intro hshort e s₃ hholds
    have hlong := hholds.1
    omega

end Handler.Presents

/-! ## The calls of a reading -/

/-- The calls that read the table which the bytes of a file header name: none, if there are no
entries or the table is refused. -/
def TableReadingTalk (w : Width) (header : List UInt8) (es : List Event) : Prop :=
  let size := (Field.phentsize w).read header * (Field.phnum w).read header
  es = [] ∨ (Image.TableBounded w header ∧ ∃ table reads, Fills size table reads ∧
    es = ⟨.seek ((Field.phoff w).read header), .ok ()⟩ :: ⟨.scratch size, true⟩ :: reads)

/-- The calls that read the headers of an image. -/
def ReadingTalk (w : Width) (es : List Event) : Prop :=
  ∃ header reads rest, Fills w.headerSize header reads ∧
    es = ⟨.seek 0, .ok ()⟩ :: ⟨.scratch w.headerSize, true⟩ :: (reads ++ rest) ∧
    TableReadingTalk w header rest

namespace Load

variable {before : List Event}

/-- **Reading a table** conforms to its conversation, in front of anything that makes no call. -/
theorem conforms_readTable_bind {α : Type} {f : Table → Load α} {w : Width} {header : FileHeader}
    {bytes : List UInt8} (hdesc : header.Describes w bytes)
    (hf : ∀ before table, Conforms before (f table) fun talk _ => talk = []) :
    Conforms before (readTable w header >>= f) (fun talk _ => TableReadingTalk w bytes talk) := by
  have hstop : ∀ before e, Conforms before (check (α := α) (.error e))
      fun talk _ => TableReadingTalk w bytes talk := fun _ _ => conforms_check (Or.inl rfl)
  by_cases hz : (Field.phnum w).read bytes = 0
  · have hempty : readTable w header = pure (.empty w) :=
      if_pos (hdesc.phnum_eq_zero_iff.2 hz)
    rw [hempty, pure_bind]
    exact (hf before _).imp fun talk _ htalk => Or.inl htalk
  have hne : header.phnum ≠ 0 := fun hzero => hz (hdesc.phnum_eq_zero_iff.1 hzero)
  rw [readTable_eq _ _ hne, hdesc.phentsize, hdesc.tableSize_eq, hdesc.phoff]
  by_cases hsmall : (Field.phentsize w).read bytes < w.entrySize
  · rw [if_pos hsmall, bind_assoc]
    exact conforms_note_bind (hstop _ _)
  rw [if_neg hsmall]
  by_cases hlarge : maxTableSize < (Field.phentsize w).read bytes * (Field.phnum w).read bytes
  · rw [if_pos hlarge, bind_assoc]
    exact conforms_note_bind (hstop _ _)
  rw [if_neg hlarge]
  simp only [bind_assoc]
  refine (conforms_note_bind (conforms_seek_bind (conforms_note_bind (conforms_scratch_bind
    (conforms_note_bind (conforms_read_bind (U := fun _ talk _ => talk = []) .readTableFailed
      (delivered_append_of_not_isRead rfl) fun blob reads hfills => ?_)))))).imp ?_
  · have hlength : blob.length = (Field.phnum w).read bytes * (Field.phentsize w).read bytes := by
      rw [hfills.length_eq, Nat.mul_comm]
    rw [Table.ofBlob?_eq (Nat.not_lt.1 hsmall) hlength, pure_bind]
    exact hf _ _
  · rintro talk result ⟨rest, rfl, rest, rfl, blob, reads, rest, hfills, rfl, rfl⟩
    rw [List.append_nil]
    exact Or.inr ⟨⟨Nat.not_lt.1 hsmall, Nat.not_lt.1 hlarge⟩, blob, reads, hfills, rfl⟩

/-- **Reading headers** conforms to its conversation, whatever the collaborators do. -/
theorem conforms_readHeaders (w : Width) :
    Conforms [] (readHeaders (some w)) (fun talk _ => ReadingTalk w talk) := by
  unfold readHeaders
  refine (conforms_note_bind (conforms_seek_bind (conforms_note_bind (conforms_scratch_bind
    (conforms_note_bind (conforms_read_bind
      (U := fun header talk _ => TableReadingTalk w header talk)
      .readHeaderFailed (delivered_append_of_not_isRead rfl)
      fun bytes reads hfills => ?_)))))).imp ?_
  · obtain ⟨header, hdecode, hdesc⟩ :=
      FileHeader.exists_decode (Nat.le_of_eq hfills.length_eq.symm)
    rw [hdecode]
    exact conforms_readTable_bind hdesc fun before table => conforms_check (x := .ok _) rfl
  · rintro talk result ⟨rest, rfl, rest, rfl, header, reads, rest, hfills, rfl, htable⟩
    exact ⟨header, reads, rest, hfills, rfl, htable⟩

end Load

/-! ## What was delivered before a call -/

/-- The bytes that an event delivers. -/
def Event.bytes : Event → List UInt8
  | ⟨.read _, .ok c⟩ => c.val
  | _ => []

/-- The bytes that were delivered in some events. -/
def received (es : List Event) : List UInt8 := es.flatMap Event.bytes

theorem received_append (es es' : List Event) :
    received (es ++ es') = received es ++ received es' := List.flatMap_append

theorem Fills.received_eq {n : Nat} {bs : List UInt8} {reads : List Event}
    (h : Fills n bs reads) : received reads = bs := by
  induction h with
  | done => rfl
  | @more n b bs rest reads hle _ ih =>
    show (b :: bs) ++ received reads = b :: bs ++ rest
    rw [ih]

/-- Every call of such reads asks for what is still missing. -/
theorem Fills.asks {n : Nat} {bs : List UInt8} {reads pre post : List Event} {ev : Event}
    (h : Fills n bs reads) (heq : reads = pre ++ ev :: post) :
    ∃ m, ev.call = .read m ∧ (received pre).length + m = n := by
  induction h generalizing pre with
  | done =>
    have hlen := congrArg List.length heq
    simp at hlen
  | @more n b bs rest reads hle _ ih =>
    cases pre with
    | nil =>
      cases heq
      exact ⟨n, rfl, Nat.zero_add n⟩
    | cons first pre =>
      cases heq
      obtain ⟨m, hcall, hsum⟩ := ih rfl
      refine ⟨m, hcall, ?_⟩
      show ((b :: bs) ++ received pre).length + m = n
      rw [List.length_append, List.length_cons]
      omega

/-- What must be known before a call of a reading.  A buffer is no larger than a table may be.
Bytes are asked for while the file stands at its start and the file header is not complete; later
on only if the header names a table that is read, and only bytes of that table. -/
structure Guarded (w : Width) (before : List Event) (c : Call) : Prop where
  buffer : ∀ n, c = .scratch n → n ≤ maxTableSize
  read : ∀ n, c = .read n →
    ((∀ ev ∈ before, ∀ offset, ev.call = .seek offset → offset = 0) ∧
      (received before).length + n = w.headerSize) ∨
    (w.headerSize ≤ (received before).length ∧ Image.TableBounded w (received before) ∧
      (received before).length + n = w.headerSize +
        (Field.phentsize w).read (received before) * (Field.phnum w).read (received before))

theorem guarded_of_other {w : Width} {before : List Event} {c : Call}
    (hscratch : ∀ n, c ≠ .scratch n) (hread : ∀ n, c ≠ .read n) : Guarded w before c :=
  ⟨fun n hc => absurd hc (hscratch n), fun n hc => absurd hc (hread n)⟩

theorem guarded_scratch {w : Width} {before : List Event} {n : Nat} (h : n ≤ maxTableSize) :
    Guarded w before (.scratch n) := by
  constructor
  case buffer =>
    intro m hm
    cases hm
    exact h
  case read =>
    intro m hm
    cases hm

/-- What a header says of its table stands in its first bytes. -/
theorem Field.read_append_header {w : Width} {header : List UInt8}
    (h : header.length = w.headerSize) (more : List UInt8) :
    (phentsize w).read (header ++ more) = (phentsize w).read header ∧
      (phnum w).read (header ++ more) = (phnum w).read header := by
  have htake : (header ++ more).take w.headerSize = header := List.take_left' h
  have hstride : (phentsize w).offset + (phentsize w).size ≤ w.headerSize := by cases w <;> decide
  have hcount : (phnum w).offset + (phnum w).size ≤ w.headerSize := by cases w <;> decide
  rw [← read_take hstride, ← read_take hcount, htake]
  exact ⟨rfl, rfl⟩

/-- The calls that read a table are guarded by the header that was delivered before them. -/
theorem TableReadingTalk.guarded {w : Width} {front es pre post : List Event} {ev : Event}
    (h : TableReadingTalk w (received front) es) (hfront : (received front).length = w.headerSize)
    (heq : es = pre ++ ev :: post) : Guarded w (front ++ pre) ev.call := by
  rcases h with rfl | ⟨hbounded, table, reads, hfills, rfl⟩
  · have hlen := congrArg List.length heq
    simp at hlen
  match pre with
  | [] =>
    cases heq
    exact guarded_of_other (fun n hc => by cases hc) (fun n hc => by cases hc)
  | [_] =>
    cases heq
    exact guarded_scratch hbounded.2
  | x :: y :: pre =>
    rw [List.cons_append, List.cons_append, List.cons.injEq, List.cons.injEq] at heq
    obtain ⟨rfl, rfl, heq⟩ := heq
    obtain ⟨m, hcall, hsum⟩ := hfills.asks heq
    rw [hcall]
    constructor
    case buffer =>
      intro n hn
      cases hn
    case read =>
      intro n hn
      cases hn
      have hreceived : ∀ x y : Event, x.bytes = [] → y.bytes = [] →
          received (front ++ x :: y :: pre) = received front ++ received pre := by
        intro x y hx hy
        rw [received_append]
        congr 1
        show x.bytes ++ (y.bytes ++ received pre) = received pre
        rw [hx, hy]
        rfl
      obtain ⟨hstride, hcount⟩ := Field.read_append_header hfront (received pre)
      rw [hreceived _ _ rfl rfl, Image.TableBounded, hstride, hcount, List.length_append, hfront]
      exact Or.inr ⟨Nat.le_add_right _ _, hbounded, by omega⟩

/-- An event of two lists one after the other stands in the first or in the second. -/
theorem append_cons_cases {es es' pre post : List Event} {ev : Event}
    (h : es ++ es' = pre ++ ev :: post) :
    (∃ rest, es = pre ++ ev :: rest) ∨ ∃ mid, pre = es ++ mid ∧ es' = mid ++ ev :: post := by
  rcases List.append_eq_append_iff.1 h with ⟨mid, hpre, hes'⟩ | ⟨mid, hes, hmid⟩
  · exact Or.inr ⟨mid, hpre, hes'⟩
  · cases mid with
    | nil =>
      rw [List.append_nil] at hes
      exact Or.inr ⟨[], by rw [hes, List.append_nil], hmid.symm⟩
    | cons first rest =>
      cases hmid
      exact Or.inl ⟨rest, hes⟩

/-- **Every call of a reading is guarded** by what was delivered before it. -/
theorem ReadingTalk.guarded {w : Width} {es pre post : List Event} {ev : Event}
    (h : ReadingTalk w es) (heq : es = pre ++ ev :: post) : Guarded w pre ev.call := by
  obtain ⟨header, reads, rest, hfills, rfl, htable⟩ := h
  match pre with
  | [] =>
    cases heq
    exact guarded_of_other (fun n hc => by cases hc) (fun n hc => by cases hc)
  | [_] =>
    cases heq
    exact guarded_scratch (by cases w <;> decide)
  | x :: y :: pre =>
    rw [List.cons_append, List.cons_append, List.cons.injEq, List.cons.injEq] at heq
    obtain ⟨rfl, rfl, heq⟩ := heq
    rcases append_cons_cases heq with ⟨later, hreads⟩ | ⟨mid, rfl, hrest⟩
    · -- the file header is being read
      obtain ⟨m, hcall, hsum⟩ := hfills.asks hreads
      have hseek : ∀ e ∈ pre, ∀ offset, e.call ≠ .seek offset := by
        intro e he
        refine (hfills.plain e ?_).2
        rw [hreads]
        exact List.mem_append_left _ he
      rw [hcall]
      constructor
      case buffer =>
        intro n hn
        cases hn
      case read =>
        intro n hn
        cases hn
        refine Or.inl ⟨fun e he offset hcall => ?_, hsum⟩
        rcases List.mem_cons.1 he with rfl | he
        · cases hcall
          rfl
        rcases List.mem_cons.1 he with rfl | he
        · cases hcall
        · exact absurd hcall (hseek e he offset)
    · -- the file header is complete
      have hheader : received (⟨.seek 0, .ok ()⟩ :: ⟨.scratch w.headerSize, true⟩ :: reads) =
          header := hfills.received_eq
      rw [← hheader] at htable
      exact htable.guarded (by rw [hheader, hfills.length_eq]) hrest

/-- **Reading headers.**  From any file that is presented they are read exactly if the file holds
them, wherever it stands and however it splits its reads, and what is found is what stands there.
With any collaborators at all, every call is guarded. -/
theorem Load.readHeaders_named {σ : Type} {h : Handler σ} {contents : List UInt8}
    {At : Nat → σ → Prop} (hfile : h.Presents contents At) {position : Nat} {s : σ}
    (hat : At position s) (w : Width) :
    (∃ result, (Program.run h (readHeaders (some w)).run s).outcome = .done result ∧
      ((∃ found, result = .ok found) ↔ Image.HoldsHeaders w contents) ∧
      ∀ found, result = .ok found → found.ReadFrom w contents) ∧
    ∀ (τ : Type) (g : Handler τ) (t : τ) (pre : List Event) (ev : Event) (post : List Event),
      (Program.run g (readHeaders (some w)).run t).events = pre ++ ev :: post →
        Guarded w pre ev.call := by
  constructor
  · obtain ⟨result, hrun, hresult⟩ := hfile.readHeaders_exact hat w
    refine ⟨result, hrun, ?_⟩
    cases result with
    | ok found =>
      refine ⟨⟨fun _ => hresult.1, fun _ => ⟨found, rfl⟩⟩, fun other hother => ?_⟩
      cases hother
      exact hresult.2
    | error e =>
      refine ⟨⟨?_, fun hholds => absurd hholds hresult⟩, fun found hno => by cases hno⟩
      rintro ⟨found, hno⟩
      cases hno
  · intro τ g t pre ev post hevents
    obtain ⟨talk, result, htalk, -, hends⟩ := conforms_readHeaders w τ g t
    obtain ⟨ev', post', heq, hcall⟩ := hends.exists_talk hevents
    rw [← hcall]
    exact htalk.guarded heq

/-- A rig with a file open that does not fail, and on which nothing is made to fail, serves that
file from where it stands. -/
theorem Host.Rig.serves_open {r : Host.Rig} {f : Host.File} {a : Host.Arena}
    (hfile : r.machine.file = some f) (htraits : f.traits.Faultless) (harena : r.arena? = some a)
    (hfailure : r.machine.memory.failure = none) (hcalm : r.Calm)
    (hbuffers : ∀ n ≤ maxTableSize, r.machine.grantsScratch n = true) :
    r.Serves ⟨f.content, r.machine.grantsScratch, True⟩ a f.position where
  file := ⟨f, hfile, rfl, rfl, fun _ => htraits⟩
  arena := harena
  failure := hfailure
  grants := rfl
  fate := fun _ => hcalm
  buffers := fun _ => hbuffers

/-- The image with padded entries, open at its fifth byte; reads deliver at most seven bytes, and
every second one at most three. -/
def steppedRig : Host.Rig where
  machine :=
    { file := some { content := paddedBuilder.build, traits := { chunk := some 7 }, position := 5 }
      memory := { arena := some (.fresh 0x1000 0x2000) } }
  fate n := if n % 2 = 0 then .shorten 3 else .pass

theorem Load.readHeaders_named_sample :
    ∃ found, (steppedRig.run (readHeaders (some .bits32))).outcome = .done (.ok found) ∧
      found.table.count = 2 ∧
      (∃ header, found.table.get? 1 = some header ∧
        ProgramHeader.decode? .bits32 (paddedBuilder.build.drop 92) = some header) ∧
      found.table.get? 2 = none ∧
      ∀ pre n post answer, (steppedRig.run (readHeaders (some .bits32))).events =
        pre ++ ⟨.scratch n, answer⟩ :: post → n ≤ maxTableSize := by
  have hcalm : steppedRig.Calm := by
    intro n cause hno
    unfold steppedRig at hno
    dsimp only at hno
    split at hno
    · cases hno
    · cases hno
  have hserves := Host.Rig.serves_open (r := steppedRig) rfl ⟨rfl, rfl, rfl⟩ rfl rfl hcalm
    fun n hn => decide_eq_true (Nat.lt_of_le_of_lt hn (by decide))
  obtain ⟨⟨result, hrun, hiff, hread⟩, hguarded⟩ :=
    readHeaders_named (Host.Rig.presents trivial _) hserves .bits32
  have hholds : Image.HoldsHeaders .bits32 paddedBuilder.build := by decide +kernel
  obtain ⟨found, rfl⟩ := hiff.2 hholds
  have hcount : (Field.phnum .bits32).read paddedBuilder.build = 2 := by decide +kernel
  have hplace : (Field.phoff .bits32).read paddedBuilder.build +
      1 * (Field.phentsize .bits32).read paddedBuilder.build = 92 := by decide +kernel
  have htable := (hread found rfl).table
  have hlt : 1 < (Field.phnum .bits32).read paddedBuilder.build := by
    rw [hcount]
    decide
  obtain ⟨header, hget, hdecode⟩ := htable.get 1 hlt
  refine ⟨found, hrun, htable.count.trans hcount, ⟨header, hget, ?_⟩,
    htable.none 2 (Nat.le_of_eq hcount), ?_⟩
  · rw [← hplace]
    exact hdecode
  · intro pre n post answer hevents
    exact (hguarded _ _ _ _ _ _ hevents).buffer n rfl

end ElfBoot
