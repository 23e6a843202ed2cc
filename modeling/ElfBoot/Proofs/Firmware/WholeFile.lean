import ElfBoot.Proofs.Firmware.Agreement
import ElfBoot.Proofs.Firmware.Statuses

/-!
# Whole files

The size of a file is found by going to its end and asking for the position; then the file is read
from its start.  Whatever the firmware delivers at a time, the bytes read are those of the file,
each of them once and in order.

* `Services.Keeps` — what is asked of the firmware.
* `Boot.exists_size` — the search for the size, which ends at the start of the file.
* `Boot.ensures_readAll`, `Boot.ending_readAll_of_refused` — reading a file of known size, with a
  buffer and without one.
* `Boot.readFile_whole` — reading the file at a path.
-/

set_option autoImplicit false

namespace ElfBoot.Firmware

variable {ν φ α : Type}

/-- The firmware keeps some bytes as a regular file under a name.  An open file can be moved to its
end and to its start, its position can be asked for, and its bytes can be read, in parts of any
size.  `At p f` says that the open file `f` stands at position `p`. -/
structure Services.Keeps (fw : Services ν φ α) (name : List UInt16) (content : List UInt8)
    (volume : ν) (At : Nat → φ → Prop) : Prop where
  opens : ∃ f f' volume' p, fw.openName name volume = (.ok f, volume') ∧
    fw.intoType f = .ok (.regular f') ∧ At p f'
  tell : ∀ p f, At p f → ∃ f', fw.getPosition f = (.ok p, f') ∧ At p f'
  toEnd : ∀ p f, At p f → ∃ f', fw.setPosition endOfFile f = (.ok (), f') ∧ At content.length f'
  toStart : ∀ p f, At p f → ∃ f', fw.setPosition 0 f = (.ok (), f') ∧ At 0 f'
  read : fw.Reads content At

namespace Boot

variable {fw : Services ν φ α} {path : String} {name : List UInt16} {content : List UInt8}
  {volume : ν} {At : Nat → φ → Prop} {b : Boot ν φ α} {f : φ}

/-- **The search for the size** finds it, wherever the file stands, and ends at its start. -/
theorem exists_size (hfw : fw.Keeps name content volume At) {position : Nat}
    (hat : At position f) : ∃ f', size fw f = (.ok content.length, f') ∧ At 0 f' := by
  obtain ⟨f₁, hend, hat₁⟩ := hfw.toEnd position f hat
  obtain ⟨f₂, htell, hat₂⟩ := hfw.tell _ f₁ hat₁
  obtain ⟨f₃, hstart, hat₃⟩ := hfw.toStart _ f₂ hat₂
  refine ⟨f₃, ?_, hat₃⟩
  simp only [size, Boot.seek, hend, htell, hstart]
  rfl

/-- A buffer that is granted, or one for no bytes at all. -/
theorem ensures_buffer {n : Nat} (hgrant : n = 0 ∨ b.grantsScratch n = true) :
    Load.Ensures (handler fw) (buffer n) (fun result b' => result = .ok () ∧ b' = b) b := by
  unfold buffer
  by_cases hn : n = 0
  · rw [if_pos hn]
    exact Load.ensures_pure.2 ⟨rfl, rfl⟩
  · have hscratch : reply fw (.scratch n) b = some (true, b, []) := by
      rw [reply, hgrant.resolve_left hn]
    rw [if_neg hn, Load.scratch]
    refine Load.ensures_ask_bind.2 ⟨_, reply_of_eq fw hscratch, ?_⟩
    rw [if_pos rfl]
    exact Load.ensures_pure.2 ⟨rfl, rfl⟩

/-- Reading a file of known size from its start, if there is a buffer for it. -/
theorem ensures_readAll (hread : fw.Reads content At) (hat : At 0 f)
    (hgrant : content.length = 0 ∨ b.grantsScratch content.length = true) :
    Load.Ensures (handler fw) (some <$> readAll path content.length)
      (fun result _ => result = .ok (some content)) { b with file := some f } := by
  have hall : (content.drop 0).take content.length = content := by
    rw [List.drop_zero, List.take_length]
  unfold readAll
  simp only [map_bind, map_pure]
  have hbuffer : Load.Ensures (handler fw) (buffer content.length) _ { b with file := some f } :=
    ensures_buffer hgrant
  refine Load.ensures_note_bind.2 (hbuffer.bind ?_ ?_)
  · rintro _ _ ⟨-, rfl⟩
    refine (Load.ensures_readExact_of_le (hread.delivers b) ⟨f, rfl, hat⟩ (by omega)).bind ?_ ?_
    · rintro bytes b' ⟨hbytes, f', rfl, -⟩
      obtain rfl : bytes = content := (Except.ok.inj hbytes).trans hall
      have hclose : reply fw .close { b with file := some f' } =
          some (.ok (), { b with file := none }, []) := rfl
      refine Load.ensures_ask_bind.2 ⟨_, reply_of_eq fw hclose, Load.ensures_check_bind.2 ?_⟩
      exact Load.ensures_pure.2 rfl
    · rintro e b' ⟨hno, -⟩
      cases hno
  · rintro e b' ⟨hno, -⟩
    cases hno

/-- Without a buffer nothing is read. -/
theorem ending_readAll_of_refused (fw : Services ν φ α) (path : String) {n : Nat} (hn : n ≠ 0)
    (hrefuse : b.grantsScratch n = false) :
    Load.ending (handler fw) (some <$> readAll path n) b =
      (.done (.error (.allocation (.buffer n))), b, [⟨.scratch n, false⟩]) := by
  have hscratch : reply fw (.scratch n) b = some (false, b, []) := by
    rw [reply, hrefuse]
  unfold readAll buffer
  rw [if_neg hn, Load.scratch]
  simp only [map_bind, map_pure, bind_assoc]
  rw [Load.ending_note_bind, Load.ending_bind, Load.ending_ask, reply_of_eq fw hscratch]
  rfl

/-- The file at a path is read as a whole: its size is found, which leaves it at its start, and
then its bytes are read one part after another, if there is a buffer for them, and nothing if there
is none.  An empty file needs no buffer. -/
structure ReadsWhole (fw : Services ν φ α) (path : String) (content : List UInt8)
    (At : Nat → φ → Prop) (b : Boot ν φ α) : Prop where
  probed : ∃ b' f f', b.openFile fw path = (.ok (), b') ∧ b'.file = some f ∧
    size fw f = (.ok content.length, f') ∧ At 0 f'
  granted : content = [] ∨ b.grantsScratch content.length = true →
    (b.readFile fw path).outcome = .done (.ok (some content)) ∧
      ∃ reads, Fills content.length content reads ∧
        (b.readFile fw path).events =
          bufferTalk content.length ++ (reads ++ [⟨.close, .ok ()⟩])
  refused : content ≠ [] → b.grantsScratch content.length = false →
    (b.readFile fw path).outcome = .done (.error (.allocation (.buffer content.length))) ∧
      (b.readFile fw path).events = [⟨.scratch content.length, false⟩]

/-- **A whole file** is read exactly.  The firmware may deliver its bytes in parts of any size; the
answer is all of them, or that there is no buffer of their number. -/
theorem readFile_whole (hname : fw.spell (backslashed path) = some name)
    (hfw : fw.Keeps name content b.volume At) : ReadsWhole fw path content At b := by
  obtain ⟨f, f₀, volume, position, hopen, htype, hat⟩ := hfw.opens
  obtain ⟨f₁, hsize, hat₁⟩ := exists_size hfw hat
  have hopened := (Opens.opened hname hopen htype).eq
  have hread := readFile_of_opened hopened rfl
  rw [hsize] at hread
  constructor
  case probed => exact ⟨_, f₀, f₁, hopened, rfl, hsize, hat₁⟩
  case granted =>
    intro hgrant
    have hgrant := hgrant.imp_left List.length_eq_zero_iff.2
    rw [hread]
    obtain ⟨result, houtcome, rfl⟩ := ensures_readAll (b := { b with volume }) hfw.read hat₁ hgrant
    refine ⟨houtcome, ?_⟩
    obtain ⟨talk, result, ⟨bytes, reads, hfills, rfl, rfl⟩, -, hends⟩ :=
      conforms_readAll path content.length _ (handler fw) { b with volume, file := some f₁ }
    obtain ⟨hevents, hresult⟩ := hends.of_ok houtcome
    cases hresult
    exact ⟨reads, hfills, hevents⟩
  case refused =>
    intro hne hrefuse
    have hn : content.length ≠ 0 := fun hzero => hne (List.length_eq_zero_iff.1 hzero)
    have hend := ending_readAll_of_refused fw path (b := { b with volume, file := some f₁ }) hn
      hrefuse
    simp only [Load.ending, Program.ending, Prod.mk.injEq] at hend
    rw [hread]
    exact ⟨hend.1, hend.2.2⟩

end Boot

/-! ## The small firmware -/

/-- The small firmware keeps its files. -/
theorem Profile.keeps {p : Profile} {name : List UInt16} {content : List UInt8} (hp : p.Healthy)
    (htell : failure? p.tellEnd = none) (hfile : p.files.lookup (nameText name) = some content) :
    p.services.Keeps name content () (At content) := by
  have hstores := stores hp hfile
  constructor
  case opens =>
    obtain ⟨h, h', volume, hopen, htype, hat⟩ := hstores.opens
    exact ⟨h, h', volume, 0, hopen, htype, hat⟩
  case tell =>
    rintro q h ⟨rfl, rfl, hregular⟩
    refine ⟨h, ?_, rfl, rfl, hregular⟩
    show (p.getPosition h, h) = _
    rw [getPosition, hregular, if_neg Bool.false_ne_true]
    by_cases hzero : h.position = 0
    · rw [if_pos hzero, hp.telling]
    · rw [if_neg hzero, htell]
  case toEnd =>
    intro q h hat
    have hseek := hstores.seek q h endOfFile (by decide) hat
    rwa [if_pos rfl] at hseek
  case toStart =>
    intro q h hat
    have hseek := hstores.seek q h 0 (by decide) hat
    rwa [if_neg (by decide)] at hseek
  case read => exact hstores.read

/-- A file of eight bytes. -/
def smallFile : List UInt8 := [0x7B, 0x22, 0x61, 0x22, 0x3A, 0x31, 0x7D, 0x0A]

/-- A firmware with that file and an empty one, which delivers three bytes at a time. -/
def smallDisk : Profile where
  files := [("\\boot.json", smallFile), ("\\EFI\\empty", [])]
  chunk := some 3

/-- The file is read as a whole, or refused if there is room for seven bytes only.  The empty file
is read even if no buffer is to be had. -/
theorem Boot.readFile_whole_sample :
    let tight : Model := { Model.fresh with grantsScratch := fun n => decide (n < 8) }
    let full : Model := { Model.fresh with grantsScratch := fun _ => false }
    let fw := smallDisk.services
    let name : List UInt16 := [92, 98, 111, 111, 116, 46, 106, 115, 111, 110]
    (fw.spell (backslashed "/boot.json") = some name ∧
        fw.Keeps name smallFile () (Profile.At smallFile)) ∧
      ReadsWhole fw "/boot.json" smallFile (Profile.At smallFile) Model.fresh ∧
      (Model.fresh.readFile fw "/boot.json").outcome = .done (.ok (some smallFile)) ∧
      (tight.readFile fw "/boot.json").outcome = .done (.error (.allocation (.buffer 8))) ∧
      (full.readFile fw "/EFI/empty").outcome = .done (.ok (some [])) := by
  intro tight full fw name
  have hname : fw.spell (backslashed "/boot.json") = some name := by decide +kernel
  have hhealthy : smallDisk.Healthy := by
    constructor
    all_goals decide
  have hkeeps : fw.Keeps name smallFile () (Profile.At smallFile) :=
    Profile.keeps hhealthy (by decide) (by decide +kernel)
  have hempty : fw.Keeps [92, 69, 70, 73, 92, 101, 109, 112, 116, 121] [] () (Profile.At []) :=
    Profile.keeps hhealthy (by decide) (by decide +kernel)
  have hwhole := readFile_whole (b := Model.fresh) hname hkeeps
  refine ⟨⟨hname, hkeeps⟩, hwhole, (hwhole.granted (Or.inr (by decide))).1, ?_, ?_⟩
  · exact ((readFile_whole (b := tight) hname hkeeps).refused (by decide) (by decide)).1
  · have hname : fw.spell (backslashed "/EFI/empty") =
        some [92, 69, 70, 73, 92, 101, 109, 112, 116, 121] := by
      decide +kernel
    exact ((readFile_whole (b := full) hname hempty).granted (Or.inl rfl)).1

end ElfBoot.Firmware
