import ElfBoot.Handoff.Info

/-!
# Writing a memory map

The map is written into a buffer of fixed length, at a time when nothing can be allocated any
more.  Regions come one by one; empty ones are skipped, an available region that starts where the
last stored one, also available, ends is merged into it, and a region for which there is no room
is counted as dropped.

* `MapWriter` — the buffer, how much of it is used, and the number of dropped regions.
* `MapWriter.push` — one region; `none` if the end of the last region or the merged page count is
  no word.
* `MapWriter.finish`, `MapWriter.finishInto` — the map, alone or in a boot record.
* `coalesce` — the same merging over a list of regions, without a buffer.
-/

set_option autoImplicit false

namespace ElfBoot.Handoff

/-- A memory map in the making. -/
structure MapWriter where
  buffer : List Region
  used : Nat := 0
  dropped : Nat := 0
  deriving DecidableEq, Repr

namespace MapWriter

/-- Starts an empty map in a buffer. -/
def start (buffer : List Region) : MapWriter := { buffer }

/-- The regions written so far. -/
def finish (w : MapWriter) : List Region := w.buffer.take w.used

/-- The region written last. -/
def last? (w : MapWriter) : Option Region :=
  if w.used = 0 then none else w.buffer[w.used - 1]?

/-- Stores a region behind the others, or counts it as dropped. -/
def store (w : MapWriter) (r : Region) : MapWriter :=
  if w.used < w.buffer.length then
    { w with buffer := w.buffer.set w.used r, used := w.used + 1 }
  else { w with dropped := w.dropped + 1 }

/-- Makes the region written last longer by some pages. -/
def extendLast? (w : MapWriter) (last : Region) (pages : UInt64) : Option MapWriter :=
  (Address.add? last.pageCount.toNat pages.toNat).map fun n =>
    { w with buffer := w.buffer.set (w.used - 1) { last with pageCount := .ofNat n } }

/-- Whether a region continues the one before it.  The end of the earlier one is looked at only
if both are available. -/
def continues? (last r : Region) : Option Bool :=
  if r.kind.isAvailable && last.kind.isAvailable
  then last.end?.map fun stop => stop == r.base.toNat
  else some false

/-- Adds a region. -/
def push (w : MapWriter) (r : Region) : Option MapWriter :=
  if r.pageCount = 0 then some w
  else match w.last? with
    | none => some (w.store r)
    | some last => do
      if ← continues? last r then w.extendLast? last r.pageCount else return w.store r

/-- Adds regions in order. -/
def pushAll (w : MapWriter) (regions : List Region) : Option MapWriter := regions.foldlM push w

/-- Hands the map over in a boot record. -/
def finishInto (w : MapWriter) (info : BootInfo) : BootInfo :=
  info.setMemoryMap w.finish w.dropped

end MapWriter

/-! ## Merging without a buffer -/

/-- Puts a region in front of merged ones, merging it with the first if both are available and
the first starts where it ends. -/
def joinFront (r : Region) : List Region → List Region
  | [] => [r]
  | next :: rest =>
    if r.kind.isAvailable && next.kind.isAvailable && r.limit == next.base.toNat
    then { r with pageCount := r.pageCount + next.pageCount } :: rest
    else r :: next :: rest

/-- Deletes empty regions and merges every run of available regions of which each starts where
the one before it ends. -/
def coalesce (regions : List Region) : List Region :=
  (regions.filter fun r => r.pageCount != 0).foldr joinFront []

end ElfBoot.Handoff
