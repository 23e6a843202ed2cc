/-!
# Little-endian words

On-disk structures and the handoff record are sequences of unsigned words, lowest byte first.

* `LittleEndian.split` / `LittleEndian.join` — a number as a fixed count of bytes, and back;
  `LittleEndian.limit` bounds the numbers that fit.
* `Word` — the unsigned words of 1, 2, 4 and 8 bytes, each given by its size and its numeral.
* `Word.encode` / `Word.decode?` — one word at the front of a byte list.
* `Word.read?` — the same as a step of a longer reading.

Principal result: `Word.decode?_eq_some_iff` — a word is read off the front of a byte list
exactly when the list starts with the word's encoding.  The layouts of the image headers and of
the memory map are built from this one fact.
-/

set_option autoImplicit false

namespace ElfBoot

/-! ## Fixed-length prefixes -/

/-- The first `n` bytes and what follows them, if there are that many. -/
def splitExactly? : Nat → List UInt8 → Option (List UInt8 × List UInt8)
  | 0, bs => some ([], bs)
  | _ + 1, [] => none
  | n + 1, b :: bs => (splitExactly? n bs).map fun p => (b :: p.1, p.2)

theorem splitExactly?_append (front rest : List UInt8) :
    splitExactly? front.length (front ++ rest) = some (front, rest) := by
  induction front with
  | nil => rfl
  | cons b bs ih => simp [splitExactly?, ih]

theorem splitExactly?_eq_some_iff {n : Nat} {bs front rest : List UInt8} :
    splitExactly? n bs = some (front, rest) ↔ front.length = n ∧ bs = front ++ rest := by
  constructor
  · intro h
    induction n generalizing bs front with
    | zero => simp only [splitExactly?, Option.some.injEq, Prod.mk.injEq] at h; simp [← h.1, h.2]
    | succ n ih =>
      cases bs with
      | nil => simp [splitExactly?] at h
      | cons b bs =>
        simp only [splitExactly?, Option.map_eq_some_iff] at h
        obtain ⟨⟨p, r⟩, hp, heq⟩ := h
        simp only [Prod.mk.injEq] at heq
        obtain ⟨rfl, rfl⟩ := heq
        obtain ⟨hlen, rfl⟩ := ih hp
        simp [hlen]
  · rintro ⟨rfl, rfl⟩
    exact splitExactly?_append front rest

theorem splitExactly?_isSome_iff {n : Nat} {bs : List UInt8} :
    (splitExactly? n bs).isSome ↔ n ≤ bs.length := by
  constructor
  · intro h
    obtain ⟨⟨p, r⟩, hp⟩ := Option.isSome_iff_exists.1 h
    obtain ⟨hlen, rfl⟩ := splitExactly?_eq_some_iff.1 hp
    simp [hlen]
  · intro h
    have hl : (bs.take n).length = n := by simp [h]
    have := splitExactly?_append (bs.take n) (bs.drop n)
    rw [hl, List.take_append_drop] at this
    simp [this]

/-! ## Numbers as bytes -/

namespace LittleEndian

/-- Numbers of `size` bytes stay below `256 ^ size`. -/
def limit : Nat → Nat
  | 0 => 1
  | size + 1 => 256 * limit size

/-- The low `size` bytes of a number, lowest first. -/
def split : Nat → Nat → List UInt8
  | 0, _ => []
  | size + 1, n => UInt8.ofNat (n % 256) :: split size (n / 256)

/-- The number whose bytes are given, lowest first. -/
def join : List UInt8 → Nat
  | [] => 0
  | b :: bs => b.toNat + 256 * join bs

@[simp] theorem length_split (size n : Nat) : (split size n).length = size := by
  induction size generalizing n with
  | zero => rfl
  | succ size ih => simp [split, ih]

theorem join_lt (bs : List UInt8) : join bs < limit bs.length := by
  induction bs with
  | nil => simp [join, limit]
  | cons b bs ih =>
    have hb : b.toNat < 256 := b.toNat_lt
    simp only [join, List.length_cons, limit]
    omega

theorem join_split {size n : Nat} (h : n < limit size) : join (split size n) = n := by
  induction size generalizing n with
  | zero =>
    have hzero : n = 0 := by simpa [limit] using h
    simp [split, join, hzero]
  | succ size ih =>
    have hdiv : n / 256 < limit size := Nat.div_lt_of_lt_mul h
    simp only [split, join, ih hdiv, UInt8.toNat_ofNat']
    omega

theorem split_join (bs : List UInt8) : split bs.length (join bs) = bs := by
  induction bs with
  | nil => rfl
  | cons b bs ih =>
    have hb : b.toNat < 256 := b.toNat_lt
    have hmod : (b.toNat + 256 * join bs) % 256 = b.toNat := by omega
    have hdiv : (b.toNat + 256 * join bs) / 256 = join bs := by omega
    simp [split, join, hmod, hdiv, ih]

end LittleEndian

/-! ## Words -/

/-- An unsigned word of `size` bytes, given by its numeral. -/
class Word (α : Type) where
  size : Nat
  toNat : α → Nat
  ofNat : Nat → α
  toNat_lt : ∀ a, toNat a < LittleEndian.limit size
  ofNat_toNat : ∀ a, ofNat (toNat a) = a
  toNat_ofNat : ∀ {n}, n < LittleEndian.limit size → toNat (ofNat n) = n

instance : Word UInt8 where
  size := 1
  toNat := UInt8.toNat
  ofNat := UInt8.ofNat
  toNat_lt a := a.toNat_lt
  ofNat_toNat a := by simp
  toNat_ofNat h := by simp [LittleEndian.limit] at h ⊢; omega

instance : Word UInt16 where
  size := 2
  toNat := UInt16.toNat
  ofNat := UInt16.ofNat
  toNat_lt a := a.toNat_lt
  ofNat_toNat a := by simp
  toNat_ofNat h := by simp [LittleEndian.limit] at h ⊢; omega

instance : Word UInt32 where
  size := 4
  toNat := UInt32.toNat
  ofNat := UInt32.ofNat
  toNat_lt a := a.toNat_lt
  ofNat_toNat a := by simp
  toNat_ofNat h := by simp [LittleEndian.limit] at h ⊢; omega

instance : Word UInt64 where
  size := 8
  toNat := UInt64.toNat
  ofNat := UInt64.ofNat
  toNat_lt a := a.toNat_lt
  ofNat_toNat a := by simp
  toNat_ofNat h := by simp [LittleEndian.limit] at h ⊢; omega

namespace Word

variable {α : Type} [Word α]

/-- The bytes of a word, lowest first. -/
def encode (a : α) : List UInt8 := LittleEndian.split (size α) (toNat a)

/-- A word off the front of a byte list, and what follows it. -/
def decode? (bs : List UInt8) : Option (α × List UInt8) :=
  (splitExactly? (size α) bs).map fun p => (ofNat (LittleEndian.join p.1), p.2)

@[simp] theorem length_encode (a : α) : (encode a).length = size α := by simp [encode]

theorem decode?_encode_append (a : α) (rest : List UInt8) :
    decode? (encode a ++ rest) = some (a, rest) := by
  have h := splitExactly?_append (encode a) rest
  rw [length_encode] at h
  have hj : ofNat (LittleEndian.join (encode a)) = a := by
    rw [encode, LittleEndian.join_split (toNat_lt a), ofNat_toNat]
  simp [decode?, h, hj]

/-- **A word is read exactly where its encoding stands.** -/
theorem decode?_eq_some_iff {bs rest : List UInt8} {a : α} :
    decode? bs = some (a, rest) ↔ bs = encode a ++ rest := by
  constructor
  · intro h
    simp only [decode?, Option.map_eq_some_iff, Prod.mk.injEq] at h
    obtain ⟨⟨p, r⟩, hp, rfl, rfl⟩ := h
    obtain ⟨hlen, rfl⟩ := splitExactly?_eq_some_iff.1 hp
    have hlt := LittleEndian.join_lt p
    rw [hlen] at hlt
    rw [encode, toNat_ofNat hlt, ← hlen, LittleEndian.split_join]
  · rintro rfl
    exact decode?_encode_append a rest

/-- Reads a word off the front of a byte list and goes on with the word and what follows it. -/
def read? {β : Type} (bs : List UInt8) (next : α → List UInt8 → Option β) : Option β :=
  (decode? bs).bind fun p => next p.1 p.2

theorem read?_encode_append {β : Type} (a : α) (rest : List UInt8)
    (next : α → List UInt8 → Option β) : read? (encode a ++ rest) next = next a rest := by
  rw [read?, decode?_encode_append, Option.bind_some]

theorem read?_eq_some_iff {β : Type} {bs : List UInt8} {next : α → List UInt8 → Option β}
    {b : β} :
    read? bs next = some b ↔ ∃ a rest, bs = encode a ++ rest ∧ next a rest = some b := by
  constructor
  · intro h
    obtain ⟨p, hp, hn⟩ := Option.bind_eq_some_iff.1 h
    exact ⟨p.1, p.2, decode?_eq_some_iff.1 hp, hn⟩
  · rintro ⟨a, rest, rfl, hn⟩
    rw [read?_encode_append, hn]

end Word

end ElfBoot
