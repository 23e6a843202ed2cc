import ElfBoot.Proofs.Host.Rig
import ElfBoot.Proofs.Load.Objection
import ElfBoot.Proofs.Load.Reading

/-!
# Reading from a rig

However a file splits its reads, reading exactly `n` bytes gives the `n` bytes at the position; if
so many are not left, the error names how many there were.

* `Rig.delivers_serves`, `Rig.Serves.readExact` — partial reads, and an exact one.
* `Rig.Serves.seek_bind`, `Rig.Serves.scratch_bind`, `Rig.Serves.read_bind` — rules for the three
  steps in front of what follows them.
* `Rig.Serves.buffer_bind` — a buffer that headers may need.
-/

set_option autoImplicit false

namespace ElfBoot.Host.Rig

open Load (Ensures Judged)

variable {env : Surroundings} {a : Arena} {position : Nat} {r : Rig}

/-- Partial reads deliver bytes at the position; they fail only where something is made to fail. -/
theorem delivers_serves (env : Surroundings) (a : Arena) :
    handler.Delivers env.content (fun p r => r.Serves env a p)
      (fun _ r => ¬ env.calm ∧ r.arena? = some a) := by
  intro p r n hn h
  obtain ⟨reply, hreply, hanswer⟩ := h.read n
  refine ⟨reply, hreply, ?_⟩
  cases hans : reply.answer with
  | ok chunk =>
    rw [hans] at hanswer
    obtain ⟨htake, hempty, hnext⟩ := hanswer
    exact ⟨htake, fun hnil => (hempty hnil).resolve_left (Nat.ne_of_gt hn), hnext⟩
  | error e =>
    rw [hans] at hanswer
    exact hanswer

/-- **Reading exactly** gives the bytes at the position, or says how many were left. -/
theorem Serves.readExact (h : r.Serves env a position) (n : Nat) :
    Ensures handler (Load.readExact n) (fun result r' =>
      match result with
      | .ok bs => bs = (env.content.drop position).take n ∧ bs.length = n ∧
          r'.Serves env a (position + n)
      | .error e => r'.arena? = some a ∧
          (env.calm → env.content.length < position + n ∧ 0 < n ∧
            e = .io (.shortRead n (env.content.length - position)))) r := by
  refine (Load.ensures_readExact (delivers_serves env a) h n).mono ?_
  intro result r' hresult
  cases result with
  | ok bs => exact hresult
  | error e =>
    rcases hresult with ⟨hlt, hpos, he, p, hserves⟩ | ⟨x, -, hnot, harena⟩
    · exact ⟨hserves.arena, fun _ => ⟨hlt, hpos, he⟩⟩
    · exact ⟨harena, fun hcalm => absurd hcalm hnot⟩

/-! ## Rules -/

section Rules

variable {α : Type} {Q : Except LoadError α → Rig → Prop} {os : List Objection}
  {bad : Rig → Prop} {good : α → Rig → Prop}

/-- Going to another position meets no objection. -/
theorem Serves.seek_bind (h : r.Serves env a position) {offset : Nat}
    {describe : IoError → Notice} {f : Unit → Load α}
    (hbad : ∀ r', r'.arena? = some a → bad r')
    (hok : ∀ r', r'.Serves env a offset →
      Ensures handler (f ()) (Judged env.calm os bad good) r') :
    Ensures handler
      (Load.ask (.seek offset) >>= fun answer => Load.settleIo describe answer >>= f)
      (Judged env.calm os bad good) r := by
  obtain ⟨⟨answer, r', notices⟩, hreply, hanswer⟩ := h.seek offset
  refine Load.ensures_ask_bind.2 ⟨_, hreply, Load.ensures_settleIo_bind.2 ?_⟩
  cases answer with
  | ok u => exact hok r' hanswer
  | error e => exact ⟨hbad r' hanswer.2, fun hcalm => absurd hcalm hanswer.1⟩

theorem Serves.scratch_bind (h : r.Serves env a position) {n : Nat} {f : Unit → Load α}
    (hok : ∀ r', env.grants n = true → r'.Serves env a position → Ensures handler (f ()) Q r')
    (herr : ∀ r', (env.calm → env.grants n = false) → r'.arena? = some a →
      Q (.error (.allocation (.buffer n))) r') :
    Ensures handler (Load.scratch n >>= f) Q r := by
  obtain ⟨⟨answer, r', notices⟩, hreply, hserves, hyes, hno⟩ := h.scratch n
  rw [Load.scratch, bind_assoc]
  refine Load.ensures_ask_bind.2 ⟨_, hreply, ?_⟩
  cases answer with
  | true =>
    rw [if_pos rfl, pure_bind]
    exact hok r' (hyes rfl) hserves
  | false =>
    rw [if_neg Bool.false_ne_true, Load.ensures_throw_bind]
    exact herr r' (hno rfl) hserves.arena

/-- A buffer that headers may need meets no objection. -/
theorem Serves.buffer_bind (h : r.Serves env a position) {n : Nat} (hn : n ≤ maxTableSize)
    {f : Unit → Load α} (hbad : ∀ r', r'.arena? = some a → bad r')
    (hok : ∀ r', r'.Serves env a position →
      Ensures handler (f ()) (Judged env.calm os bad good) r') :
    Ensures handler (Load.scratch n >>= f) (Judged env.calm os bad good) r := by
  refine h.scratch_bind (fun r' _ h' => hok r' h') fun r' hno harena => ?_
  refine ⟨hbad r' harena, fun hcalm => ?_⟩
  have hyes := h.buffers hcalm n hn
  rw [hno hcalm] at hyes
  cases hyes

theorem Serves.read_bind (h : r.Serves env a position) {n : Nat}
    {describe : LoadError → Notice} {f : List UInt8 → Load α}
    (hok : ∀ r', ((env.content.drop position).take n).length = n →
      r'.Serves env a (position + n) →
      Ensures handler (f ((env.content.drop position).take n)) Q r')
    (herr : ∀ e r', r'.arena? = some a →
      (env.calm → env.content.length < position + n ∧ 0 < n ∧
        e = .io (.shortRead n (env.content.length - position))) → Q (.error e) r') :
    Ensures handler (Load.reporting describe (Load.readExact n) >>= f) Q r := by
  refine (Load.ensures_reporting.2 (h.readExact n)).bind ?_ ?_
  · rintro bs r' ⟨rfl, hlength, hserves⟩
    exact hok r' hlength hserves
  · rintro e r' ⟨harena, hshort⟩
    exact herr e r' harena hshort

end Rules

end ElfBoot.Host.Rig
