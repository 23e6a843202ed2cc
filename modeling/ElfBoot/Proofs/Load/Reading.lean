import ElfBoot.Load.ReadExact
import ElfBoot.Proofs.Program.SideBySide

/-!
# Exact reads, one partial read after another

Reading exactly goes on until no byte is missing.  What one partial read does therefore settles
what the whole does, on one side and on two.

* `Load.readMore` — the rest of an exact read; `Load.readMore_of_pos` is its first partial read.
* `Handler.Delivers`, `Load.ensures_readExact` — a file that delivers the bytes at its position
  delivers as many as are asked for, or tells how many there were.
* `Comparison.ReadsAlike`, `Comparison.paired_readExact` — two files that answer every partial read
  with equally many bytes answer exact reads alike.
-/

set_option autoImplicit false

namespace ElfBoot

variable {σ τ : Type} {contents contents' : List UInt8} {position n : Nat}

/-- A read that delivers some of the bytes at a position leaves the others for later. -/
theorem take_drop_eq_append {chunk : List UInt8}
    (h : chunk = (contents.drop position).take chunk.length) (hle : chunk.length ≤ n) :
    (contents.drop position).take n =
      chunk ++ (contents.drop (position + chunk.length)).take (n - chunk.length) := by
  have hsplit : n = chunk.length + (n - chunk.length) := by omega
  have htake := List.take_add (l := contents.drop position) (i := chunk.length)
    (j := n - chunk.length)
  rw [← hsplit, ← h, List.drop_drop] at htake
  exact htake

/-- So many bytes were there. -/
theorem length_le_of_take_drop {chunk : List UInt8}
    (h : chunk = (contents.drop position).take chunk.length) :
    chunk.length ≤ contents.length - position := by
  have hlen := congrArg List.length h
  rw [List.length_take, List.length_drop] at hlen
  omega

namespace Load

/-- The rest of an exact read of `expected` bytes, of which `missing` are missing.  `delivered`
holds the bytes so far, last one first. -/
def readMore (expected missing : Nat) (delivered : List UInt8) : Load (List UInt8) :=
  ExceptT.mk ((fillMore expected missing delivered).bind fun p => .done (p.2.map fun _ => p.1))

theorem readExact_eq (n : Nat) : readExact n = readMore n n [] := rfl

theorem readMore_zero (expected : Nat) (delivered : List UInt8) :
    readMore expected 0 delivered = pure delivered.reverse := by
  unfold readMore
  rw [fillMore]
  rfl

theorem readMore_of_pos {expected missing : Nat} (delivered : List UInt8) (h : 0 < missing) :
    readMore expected missing delivered = ask (.read missing) >>= fun
      | .error e => throw (.io e)
      | .ok ⟨[], _⟩ => throw (.io (.shortRead expected (expected - missing)))
      | .ok ⟨b :: bs, _⟩ =>
        readMore expected (missing - (bs.length + 1)) (bs.reverse ++ b :: delivered) := by
  unfold readMore
  rw [fillMore, dif_neg (Nat.ne_of_gt h)]
  show ExceptT.mk (Program.call _ _) = ExceptT.mk (Program.call _ _)
  congr 2
  funext answer
  rcases answer with e | ⟨_ | ⟨b, bs⟩, hlen⟩ <;> rfl

end Load

/-! ## One file -/

/-- Partial reads deliver bytes at the position, and none only at the end of the file, or they fail
in a way of which `E` holds.  `At p` says of a state that the file stands at position `p`. -/
def Handler.Delivers (h : Handler σ) (contents : List UInt8) (At : Nat → σ → Prop)
    (E : IoError → σ → Prop) : Prop :=
  ∀ p s n, 0 < n → At p s → ∃ reply, h.reply (.read n) s = some reply ∧
    match reply.answer with
    | .ok chunk => chunk.val = (contents.drop p).take chunk.val.length ∧
        (chunk.val = [] → contents.length ≤ p) ∧ At (p + chunk.val.length) reply.state
    | .error e => E e reply.state

namespace Load

/-- **A file that delivers the bytes at its position** delivers as many as are asked for.  If there
are fewer, the error says how many there were; any other error is one of a partial read. -/
theorem ensures_readMore {h : Handler σ} {At : Nat → σ → Prop} {E : IoError → σ → Prop}
    (hread : h.Delivers contents At E)
    {expected missing : Nat} (hle : missing ≤ expected) (delivered : List UInt8) {s : σ}
    (hat : At position s) :
    Ensures h (readMore expected missing delivered) (fun result s' =>
      match result with
      | .ok bs => bs = delivered.reverse ++ (contents.drop position).take missing ∧
          ((contents.drop position).take missing).length = missing ∧ At (position + missing) s'
      | .error e => (contents.length < position + missing ∧ 0 < missing ∧
            e = .io (.shortRead expected (expected - missing + (contents.length - position))) ∧
            ∃ p, At p s') ∨
          ∃ x, e = .io x ∧ E x s') s := by
  induction missing using Nat.strongRecOn generalizing position delivered s with
  | ind missing ih =>
  by_cases hzero : missing = 0
  · subst hzero
    rw [readMore_zero, ensures_pure]
    simp [hat]
  have hpos : 0 < missing := Nat.pos_of_ne_zero hzero
  obtain ⟨⟨answer, s', notices⟩, hreply, hanswer⟩ := hread position s missing hpos hat
  rw [readMore_of_pos delivered hpos, ensures_ask_bind]
  refine ⟨_, hreply, ?_⟩
  rcases answer with e | ⟨_ | ⟨b, bs⟩, hlen⟩
  · exact ensures_throw.2 (Or.inr ⟨e, rfl, hanswer⟩)
  · -- nothing was delivered, so the file ends before the position
    obtain ⟨-, hempty, hnext⟩ := hanswer
    have hend := hempty rfl
    refine ensures_throw.2 (Or.inl ⟨by omega, hpos, ?_, _, hnext⟩)
    rw [Nat.sub_eq_zero_of_le hend, Nat.add_zero]
  · obtain ⟨htake, -, hnext⟩ := hanswer
    have hrest := length_le_of_take_drop htake
    have hsplit := take_drop_eq_append htake hlen
    simp only [List.length_cons] at htake hnext hlen hrest hsplit
    refine (ih (missing - (bs.length + 1)) (by omega) (by omega) _ hnext).mono ?_
    intro result s'' hresult
    cases result with
    | ok whole =>
      obtain ⟨hwhole, hlength, hat'⟩ := hresult
      refine ⟨?_, ?_, ?_⟩
      · rw [hwhole, hsplit]
        simp
      · rw [hsplit, List.length_append, hlength, List.length_cons]
        omega
      · have hsum : position + (bs.length + 1) + (missing - (bs.length + 1)) =
            position + missing := by omega
        rwa [hsum] at hat'
    | error e =>
      rcases hresult with ⟨hshort, -, he, hat'⟩ | hfailed
      · refine Or.inl ⟨by omega, hpos, ?_, hat'⟩
        rw [he]
        congr 2
        omega
      · exact Or.inr hfailed

theorem ensures_readExact {h : Handler σ} {At : Nat → σ → Prop} {E : IoError → σ → Prop}
    (hread : h.Delivers contents At E)
    {s : σ} (hat : At position s) (n : Nat) :
    Ensures h (readExact n) (fun result s' =>
      match result with
      | .ok bs => bs = (contents.drop position).take n ∧ bs.length = n ∧ At (position + n) s'
      | .error e => (contents.length < position + n ∧ 0 < n ∧
            e = .io (.shortRead n (contents.length - position)) ∧ ∃ p, At p s') ∨
          ∃ x, e = .io x ∧ E x s') s := by
  refine (ensures_readMore hread (Nat.le_refl n) [] hat).mono ?_
  intro result s' hresult
  cases result with
  | ok bs =>
    obtain ⟨rfl, hlength, hat'⟩ := hresult
    exact ⟨rfl, hlength, hat'⟩
  | error e =>
    rw [Nat.sub_self, Nat.zero_add] at hresult
    exact hresult

/-- As many bytes as are there can be read, if no read fails. -/
theorem ensures_readExact_of_le {h : Handler σ} {At : Nat → σ → Prop}
    (hread : h.Delivers contents At fun _ _ => False) {s : σ} (hat : At position s)
    (hn : position + n ≤ contents.length) :
    Ensures h (readExact n) (fun result s' =>
      result = .ok ((contents.drop position).take n) ∧ At (position + n) s') s := by
  refine (ensures_readExact hread hat n).mono fun result s' hresult => ?_
  cases result with
  | ok bs => exact ⟨congrArg _ hresult.1, hresult.2.2⟩
  | error e =>
    rcases hresult with ⟨hshort, -⟩ | ⟨x, -, hno⟩
    · omega
    · exact hno.elim

end Load

/-! ## Two files -/

namespace Comparison

variable {C : Comparison σ τ} {At : Nat → σ → τ → Prop}

/-- Two files that are read alike: at the same position, every partial read delivers equally many
bytes of each, or both fail with errors that correspond; and a load may stop there with an error
that both sides have. -/
structure ReadsAlike (C : Comparison σ τ) (contents contents' : List UInt8)
    (At : Nat → σ → τ → Prop) : Prop where
  stop : ∀ p s t e, At p s t → C.errors (.io e) (.io e) ∧ C.failed s t
  read : ∀ p s t n, 0 < n → At p s t →
    C.Paired (Load.ask (.read n)) (Load.ask (.read n)) (fun x s' y t' =>
      match x, y with
      | .ok a, .ok b => a.val = (contents.drop p).take a.val.length ∧
          b.val = (contents'.drop p).take b.val.length ∧ b.val.length = a.val.length ∧
          At (p + a.val.length) s' t'
      | .error e, .error e' => C.errors (.io e) (.io e') ∧ C.failed s' t'
      | _, _ => False) s t

theorem paired_readMore (hread : C.ReadsAlike contents contents' At)
    {expected missing : Nat} (delivered delivered' : List UInt8) {s : σ} {t : τ}
    (hat : At position s t) :
    C.Paired (Load.readMore expected missing delivered)
      (Load.readMore expected missing delivered') (fun bs s' bs' t' =>
        bs = delivered.reverse ++ (contents.drop position).take missing ∧
        bs' = delivered'.reverse ++ (contents'.drop position).take missing ∧
        ((contents.drop position).take missing).length = missing ∧
        ((contents'.drop position).take missing).length = missing ∧
        At (position + missing) s' t') s t := by
  induction missing using Nat.strongRecOn generalizing position delivered delivered' s t with
  | ind missing ih =>
  by_cases hzero : missing = 0
  · subst hzero
    rw [Load.readMore_zero, Load.readMore_zero]
    refine paired_pure ?_
    simp [hat]
  have hpos : 0 < missing := Nat.pos_of_ne_zero hzero
  rw [Load.readMore_of_pos delivered hpos, Load.readMore_of_pos delivered' hpos]
  refine (hread.read position s t missing hpos hat).bind ?_
  intro x s' y t' hxy
  rcases x with e | ⟨_ | ⟨b, bs⟩, hlen⟩ <;> rcases y with e' | ⟨_ | ⟨b', bs'⟩, hlen'⟩
  · exact paired_throw hxy.1 hxy.2
  · exact hxy.elim
  · exact hxy.elim
  · exact hxy.elim
  · have hstop := hread.stop _ _ _ (.shortRead expected (expected - missing)) hxy.2.2.2
    exact paired_throw hstop.1 hstop.2
  · have hno : bs'.length + 1 = 0 := hxy.2.2.1
    omega
  · exact hxy.elim
  · have hno : 0 = bs.length + 1 := hxy.2.2.1
    omega
  · obtain ⟨htake, htake', hsame, hnext⟩ := hxy
    have hsplit := take_drop_eq_append htake hlen
    have hsplit' := take_drop_eq_append htake' hlen'
    simp only [List.length_cons, Nat.add_right_cancel_iff] at hsplit hsplit' hsame hnext hlen
    rw [hsame] at hsplit'
    show C.Paired _ (Load.readMore _ (missing - (bs'.length + 1)) _) _ s' t'
    rw [hsame]
    refine (ih (missing - (bs.length + 1)) (by omega) _ _ hnext).mono ?_
    rintro whole s'' whole' t'' ⟨hwhole, hwhole', hlength, hlength', hat'⟩
    have hsum : position + (bs.length + 1) + (missing - (bs.length + 1)) =
        position + missing := by omega
    rw [hsum] at hat'
    refine ⟨?_, ?_, ?_, ?_, hat'⟩
    · rw [hwhole, hsplit]
      simp
    · rw [hwhole', hsplit']
      simp
    · rw [hsplit, List.length_append, hlength, List.length_cons]
      omega
    · rw [hsplit', List.length_append, hlength', List.length_cons]
      omega

/-- **Two files that answer every partial read with equally many bytes** answer exact reads alike:
each with the bytes at the position, or both with the same error. -/
theorem paired_readExact (hread : C.ReadsAlike contents contents' At)
    {s : σ} {t : τ} (hat : At position s t) (n : Nat) :
    C.Paired (Load.readExact n) (Load.readExact n) (fun bs s' bs' t' =>
      bs = (contents.drop position).take n ∧ bs' = (contents'.drop position).take n ∧
        bs.length = n ∧ bs'.length = n ∧ At (position + n) s' t') s t := by
  rw [Load.readExact_eq]
  refine (paired_readMore hread [] [] hat).mono ?_
  rintro bs s' bs' t' ⟨rfl, rfl, hlength, hlength', hat'⟩
  exact ⟨rfl, rfl, hlength, hlength', hat'⟩

end Comparison

end ElfBoot
