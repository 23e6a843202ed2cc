import ElfBoot.Proofs.Settings.Tokens

/-!
# Settings files in any order

A settings file is accepted exactly if every key in it is known and none comes twice, however its
members are ordered and wherever there are blanks.  Each setting then has the value that the file
gives it, or its default if the file gives none.

* `WrittenMember.WellFormed` — members as they are written by somebody who keeps to the format.
* `Listed`, `Settings.Shows` — members that are accepted, and what becomes of settings that are
  changed by them.
* `readMembers_member`, `readMembers_rest` — reading one member and those behind it.
* `WrittenFile.read_text` — reading a whole file.
-/

set_option autoImplicit false

namespace ElfBoot.Settings

/-! ## Members -/

namespace WrittenMember

/-- There are only blanks where blanks belong, the key needs no escape, and the value behind a known
key is of its type.  Behind any other key it may be anything. -/
structure WellFormed (m : WrittenMember) : Prop where
  blanks : m.blanksOnly = true
  key_plain : Plain m.key
  takes : ∀ key : Key, m.key = key.name.toList → key.Takes m.value

/-- What the member says: its key and its value. -/
def content (m : WrittenMember) : List Char × Written := (m.key, m.value)

/-- What stands behind the key. -/
def behindKey (m : WrittenMember) (rest : List Char) : List Char :=
  m.beforeColon ++ ':' :: (m.beforeValue ++ (m.value.characters ++ (m.afterValue ++ rest)))

theorem characters_append (m : WrittenMember) (rest : List Char) :
    m.characters ++ rest = m.beforeKey ++ '"' :: (m.key ++ '"' :: m.behindKey rest) := by
  simp [characters, behindKey]

structure Blanks (m : WrittenMember) : Prop where
  beforeKey : m.beforeKey.all isBlank = true
  beforeColon : m.beforeColon.all isBlank = true
  beforeValue : m.beforeValue.all isBlank = true
  afterValue : m.afterValue.all isBlank = true

theorem WellFormed.all_blank {m : WrittenMember} (h : m.WellFormed) : m.Blanks := by
  have hall := h.blanks
  simp only [blanksOnly, Bool.and_eq_true] at hall
  obtain ⟨⟨⟨hkey, hcolon⟩, hvalue⟩, hafter⟩ := hall
  exact ⟨hkey, hcolon, hvalue, hafter⟩

/-- A member with a known key and a value that belongs to it. -/
theorem WellFormed.of_key {m : WrittenMember} (key : Key) (hkey : m.key = key.name.toList)
    (hplain : Plain m.key) (htakes : key.Takes m.value) (hblanks : m.blanksOnly = true) :
    m.WellFormed := by
  refine ⟨hblanks, hplain, fun key' hkey' => ?_⟩
  obtain rfl : key' = key := Key.name_inj (hkey'.symm.trans hkey)
  exact htakes

end WrittenMember

/-- The members behind the first one, each with its comma. -/
def writeRest (members : List WrittenMember) : List Char :=
  members.flatMap fun m => ',' :: m.characters

theorem writeMembers_cons (m : WrittenMember) (members : List WrittenMember) :
    writeMembers (m :: members) = m.characters ++ writeRest members := by
  induction members generalizing m with
  | nil => exact (List.append_nil _).symm
  | cons m' members ih =>
    rw [writeMembers, ih]
    · rfl
    · exact List.cons_ne_nil _ _

/-! ## Accepted members -/

/-- The keys of the members are among those that may still come, each at most once. -/
structure Listed (unseen : List Key) (members : List WrittenMember) : Prop where
  known : ∀ m ∈ members, ∃ key ∈ unseen, m.key = key.name.toList
  nodup : (members.map (·.key)).Nodup

/-- Settings that were changed by members: each member has set the value under its key, and under
all other keys the values are what they were. -/
structure Shows (earlier : Settings) (members : List WrittenMember) (s : Settings) : Prop where
  stated : ∀ m ∈ members, ∀ key : Key, m.key = key.name.toList → s.value key = m.value
  kept : ∀ key : Key, key.name.toList ∉ members.map (·.key) → s.value key = earlier.value key

theorem listed_nil (unseen : List Key) : Listed unseen [] :=
  ⟨fun _ hm => absurd hm List.not_mem_nil, List.nodup_nil⟩

theorem listed_cons_iff {unseen : List Key} (hunseen : unseen.Nodup) {m : WrittenMember}
    (members : List WrittenMember) {key : Key} (hkey : m.key = key.name.toList) :
    Listed unseen (m :: members) ↔ key ∈ unseen ∧ Listed (unseen.erase key) members := by
  constructor
  · rintro ⟨hknown, hnodup⟩
    obtain ⟨⟨first, hfirst, heq⟩, hrest⟩ := List.forall_mem_cons.1 hknown
    obtain ⟨hnew, hnodup⟩ := List.nodup_cons.1 hnodup
    obtain rfl : key = first := Key.name_inj (hkey.symm.trans heq)
    refine ⟨hfirst, fun m' hm' => ?_, hnodup⟩
    obtain ⟨key', hkey', heq'⟩ := hrest m' hm'
    refine ⟨key', (List.Nodup.mem_erase_iff hunseen).2 ⟨?_, hkey'⟩, heq'⟩
    rintro rfl
    exact hnew (List.mem_map.2 ⟨m', hm', heq'.trans heq.symm⟩)
  · rintro ⟨hmem, hknown, hnodup⟩
    refine ⟨List.forall_mem_cons.2 ⟨⟨key, hmem, hkey⟩, fun m' hm' => ?_⟩, ?_⟩
    · obtain ⟨key', hkey', heq'⟩ := hknown m' hm'
      exact ⟨key', List.mem_of_mem_erase hkey', heq'⟩
    · refine List.nodup_cons.2 ⟨fun hagain => ?_, hnodup⟩
      obtain ⟨m', hm', heq⟩ := List.mem_map.1 hagain
      obtain ⟨key', hkey', heq'⟩ := hknown m' hm'
      obtain rfl : key' = key := Key.name_inj (heq'.symm.trans (heq.trans hkey))
      exact ((List.Nodup.mem_erase_iff hunseen).1 hkey').1 rfl

theorem Shows.cons {s s' : Settings} {m : WrittenMember} {members : List WrittenMember} {key : Key}
    {member : Member} (hkey : m.key = key.name.toList) (hmember : member.States key m.value)
    (hnew : m.key ∉ members.map (·.key)) (h : Shows (s.set member) members s') :
    Shows s (m :: members) s' := by
  constructor
  case stated =>
    refine List.forall_mem_cons.2 ⟨fun key' hkey' => ?_, h.stated⟩
    obtain rfl : key' = key := Key.name_inj (hkey'.symm.trans hkey)
    rw [h.kept key' (hkey ▸ hnew), hmember, if_pos rfl]
  case kept =>
    intro key' hkey'
    rw [List.map_cons, List.mem_cons, not_or] at hkey'
    obtain ⟨hother, hrest⟩ := hkey'
    have hne : key' ≠ key := by
      rintro rfl
      exact hother hkey.symm
    rw [h.kept key' hrest, hmember, if_neg hne]

/-! ## Reading members -/

/-- What reading members comes to: they are accepted and change the settings, or the first key that
is unknown or was there before is refused. -/
def ReadsAs (unseen : List Key) (s : Settings) (members : List WrittenMember) (after : List Char)
    (result : Except ReadError (Settings × List Char)) : Prop :=
  (Listed unseen members ∧ ∃ s', Shows s members s' ∧ result = .ok (s', after)) ∨
    (¬ Listed unseen members ∧ result = .error .refusedKey)

section Members

variable {unseen : List Key} {first : Bool} {s : Settings} {cs after : List Char}

theorem readMembers_end (h : nextKey first cs = .ok (none, after)) :
    ReadsAs unseen s [] after (readMembers unseen first s cs) := by
  refine Or.inl ⟨listed_nil unseen, s, ⟨fun _ hm => ?_, fun _ _ => rfl⟩, ?_⟩
  · exact absurd hm List.not_mem_nil
  · rw [readMembers, h]

/-- **One member** and those behind it. -/
theorem readMembers_member (hunseen : unseen.Nodup) {m : WrittenMember} (hm : m.WellFormed)
    {members : List WrittenMember} {tail : List Char}
    (hnext : nextKey first cs = .ok (some (String.ofList m.key), m.behindKey tail))
    (hrest : ∀ unseen' s', unseen'.Nodup →
      ReadsAs unseen' s' members after (readMembers unseen' false s' (m.afterValue ++ tail))) :
    ReadsAs unseen s (m :: members) after (readMembers unseen first s cs) := by
  rw [readMembers, hnext]
  dsimp only
  rw [String.toList_ofList]
  cases hname : Key.ofName? m.key with
  | none =>
    refine Or.inr ⟨fun hlisted => ?_, rfl⟩
    obtain ⟨key, -, hkey⟩ := hlisted.known m List.mem_cons_self
    rw [Key.ofName?_eq_some_iff.2 hkey] at hname
    cases hname
  | some key =>
    have hkey := Key.ofName?_eq_some_iff.1 hname
    have hlisted := listed_cons_iff hunseen members hkey
    by_cases hmem : key ∈ unseen
    · have hblanks := hm.all_blank
      obtain ⟨member, hstates, hread⟩ := exists_readValue (hm.takes key hkey) hblanks.beforeColon
        hblanks.beforeValue (m.afterValue ++ tail)
      have hread : readValue key (m.behindKey tail) = .ok (member, m.afterValue ++ tail) := hread
      dsimp only
      rw [dif_pos hmem, hread]
      rcases hrest (unseen.erase key) (s.set member) (hunseen.erase key) with
        ⟨hlater, s', hshows, heq⟩ | ⟨hlater, heq⟩
      · have hall := hlisted.2 ⟨hmem, hlater⟩
        exact Or.inl ⟨hall, s', hshows.cons hkey hstates (List.nodup_cons.1 hall.nodup).1, heq⟩
      · exact Or.inr ⟨fun hall => hlater (hlisted.1 hall).2, heq⟩
    · dsimp only
      rw [dif_neg hmem]
      exact Or.inr ⟨fun hall => hmem (hlisted.1 hall).1, rfl⟩

/-- **Members behind a first one**, each with its comma. -/
theorem readMembers_rest {members : List WrittenMember} (hmembers : ∀ m ∈ members, m.WellFormed)
    {blanks : List Char} (hblanks : blanks.all isBlank = true) (hunseen : unseen.Nodup) :
    ReadsAs unseen s members after
      (readMembers unseen false s (blanks ++ (writeRest members ++ '}' :: after))) := by
  induction members generalizing unseen s blanks with
  | nil => exact readMembers_end (nextKey_end hblanks false after)
  | cons m members ih =>
    obtain ⟨hm, hrest⟩ := List.forall_mem_cons.1 hmembers
    have hshape : writeRest (m :: members) ++ '}' :: after =
        ',' :: (m.characters ++ (writeRest members ++ '}' :: after)) := by
      simp [writeRest]
    rw [hshape, m.characters_append]
    refine readMembers_member hunseen hm (nextKey_later hblanks hm.all_blank.beforeKey
      hm.key_plain _) fun unseen' s' hunseen' => ?_
    exact ih hrest hm.all_blank.afterValue hunseen'

end Members

/-! ## Whole files -/

/-- **A file** comes to what its members come to, starting from the defaults. -/
theorem readCharacters_write {before inside after : List Char} (hbefore : before.all isBlank = true)
    (hinside : inside.all isBlank = true) (hafter : after.all isBlank = true)
    {members : List WrittenMember} (hmembers : ∀ m ∈ members, m.WellFormed) :
    (Listed Key.all members ∧ ∃ s, Shows {} members s ∧
        readCharacters (write before inside after members) = .ok s) ∨
      (¬ Listed Key.all members ∧
        readCharacters (write before inside after members) = .error .refusedKey) := by
  have hunseen : Key.all.Nodup := by decide
  have hall : ReadsAs Key.all {} members after (readMembers Key.all true {}
      ((if members.isEmpty then inside else writeMembers members) ++ '}' :: after)) := by
    cases members with
    | nil => exact readMembers_end (nextKey_end hinside true after)
    | cons m members =>
      obtain ⟨hm, hrest⟩ := List.forall_mem_cons.1 hmembers
      rw [if_neg (by simp), writeMembers_cons, List.append_assoc, m.characters_append]
      refine readMembers_member hunseen hm (nextKey_first hm.all_blank.beforeKey hm.key_plain _)
        fun unseen' s' hunseen' => ?_
      exact readMembers_rest hrest hm.all_blank.afterValue hunseen'
  have hshape : write before inside after members = before ++ '{' ::
      ((if members.isEmpty then inside else writeMembers members) ++ '}' :: after) := by
    simp [write]
  rw [hshape, readCharacters, skipBlanks_token hbefore rfl]
  rcases hall with ⟨hlisted, s, hshows, heq⟩ | ⟨hlisted, heq⟩
  · refine Or.inl ⟨hlisted, s, hshows, ?_⟩
    simp only [heq, skipBlanks_eq_nil hafter, if_true]
  · exact Or.inr ⟨hlisted, by simp only [heq]⟩

/-- A settings file as it is written: its members, and the blanks around them. -/
structure WrittenFile where
  members : List WrittenMember
  before : List Char := []
  /-- The blanks in an object without members. -/
  inside : List Char := []
  after : List Char := []

namespace WrittenFile

def text (f : WrittenFile) : String :=
  String.ofList (write f.before f.inside f.after f.members)

/-- There are only blanks around the members, and they are written as the format asks for it. -/
structure WellFormed (f : WrittenFile) : Prop where
  before : f.before.all isBlank = true
  inside : f.inside.all isBlank = true
  after : f.after.all isBlank = true
  members : ∀ m ∈ f.members, m.WellFormed

/-- What the file says, in the order in which it says it. -/
def contents (f : WrittenFile) : List (List Char × Written) := f.members.map (·.content)

variable {f f' : WrittenFile}

theorem read_cases (h : f.WellFormed) :
    (Listed Key.all f.members ∧ ∃ s, Shows {} f.members s ∧ read f.text = .ok s) ∨
      (¬ Listed Key.all f.members ∧ read f.text = .error .refusedKey) := by
  rw [read, text, String.toList_ofList]
  exact readCharacters_write h.before h.inside h.after h.members

theorem exists_content {m : WrittenMember} (hm : m ∈ f.members)
    (hsame : f.contents.Perm f'.contents) :
    ∃ m' ∈ f'.members, m'.key = m.key ∧ m'.value = m.value := by
  have hmem := hsame.subset (List.mem_map_of_mem hm)
  obtain ⟨m', hm', heq⟩ := List.mem_map.1 hmem
  exact ⟨m', hm', congrArg Prod.fst heq, congrArg Prod.snd heq⟩

theorem keys_perm (hsame : f.contents.Perm f'.contents) :
    (f.members.map (·.key)).Perm (f'.members.map (·.key)) := by
  have hkeys := hsame.map Prod.fst
  rwa [contents, contents, List.map_map, List.map_map] at hkeys

theorem listed_of_perm (hsame : f.contents.Perm f'.contents) (h : Listed Key.all f.members) :
    Listed Key.all f'.members := by
  constructor
  case known =>
    intro m hm
    obtain ⟨m', hm', hkey, -⟩ := exists_content hm hsame.symm
    obtain ⟨key, hmem, heq⟩ := h.known m' hm'
    exact ⟨key, hmem, hkey.symm.trans heq⟩
  case nodup => exact (keys_perm hsame).nodup_iff.1 h.nodup

/-- Files that say the same have the same settings. -/
theorem eq_of_shows (hsame : f.contents.Perm f'.contents) {earlier s s' : Settings}
    (hs : Shows earlier f.members s) (hs' : Shows earlier f'.members s') : s = s' := by
  refine eq_of_value_eq fun key => ?_
  by_cases hkey : key.name.toList ∈ f.members.map (·.key)
  · obtain ⟨m, hm, heq⟩ := List.mem_map.1 hkey
    obtain ⟨m', hm', hkey', hvalue⟩ := exists_content hm hsame
    rw [hs.stated m hm key heq, hs'.stated m' hm' key (hkey'.trans heq), hvalue]
  · have hkey' : key.name.toList ∉ f'.members.map (·.key) :=
      fun hmem => hkey ((keys_perm hsame).mem_iff.2 hmem)
    rw [hs.kept key hkey, hs'.kept key hkey']

/-- **Reading a settings file** that keeps to the format: it is accepted exactly if every key is
known and none comes twice.  Then each setting has the value that the file states, as it stands
there, and those that the file does not state have their defaults.  Files that say the same, in any
order and with any blanks, are read alike. -/
theorem read_text (h : f.WellFormed) :
    ((∃ s, read f.text = .ok s) ↔
        (∀ m ∈ f.members, ∃ key : Key, m.key = key.name.toList) ∧
          (f.members.map (·.key)).Nodup) ∧
      (∀ s, read f.text = .ok s →
        (∀ m ∈ f.members, ∀ key : Key, m.key = key.name.toList → s.value key = m.value) ∧
          ∀ key : Key, key.name.toList ∉ f.members.map (·.key) →
            s.value key = ({} : Settings).value key) ∧
      ∀ f' : WrittenFile, f'.WellFormed → f.contents.Perm f'.contents →
        read f'.text = read f.text := by
  refine ⟨?_, fun s hs => ?_, fun f' h' hsame => ?_⟩
  · constructor
    · rintro ⟨s, hs⟩
      rcases read_cases h with ⟨hlisted, -⟩ | ⟨-, heq⟩
      · refine ⟨fun m hm => ?_, hlisted.nodup⟩
        obtain ⟨key, -, hkey⟩ := hlisted.known m hm
        exact ⟨key, hkey⟩
      · rw [heq] at hs
        cases hs
    · rintro ⟨hknown, hnodup⟩
      have hlisted : Listed Key.all f.members := by
        refine ⟨fun m hm => ?_, hnodup⟩
        obtain ⟨key, hkey⟩ := hknown m hm
        exact ⟨key, key.mem_all, hkey⟩
      rcases read_cases h with ⟨-, s, -, heq⟩ | ⟨hno, -⟩
      · exact ⟨s, heq⟩
      · exact absurd hlisted hno
  · rcases read_cases h with ⟨-, s', hshows, heq⟩ | ⟨-, heq⟩
    · rw [heq] at hs
      cases hs
      exact ⟨hshows.stated, hshows.kept⟩
    · rw [heq] at hs
      cases hs
  · rcases read_cases h with ⟨hlisted, s, hshows, heq⟩ | ⟨hlisted, heq⟩
    · rcases read_cases h' with ⟨-, s', hshows', heq'⟩ | ⟨hno, -⟩
      · rw [heq, heq', eq_of_shows hsame hshows hshows']
      · exact absurd (listed_of_perm hsame hlisted) hno
    · rcases read_cases h' with ⟨hlisted', -⟩ | ⟨-, heq'⟩
      · exact absurd (listed_of_perm hsame.symm hlisted') hlisted
      · rw [heq, heq']

/-- A file with two of the five settings and blanks of every kind. -/
def sample : WrittenFile where
  before := ['\n']
  after := ['\r', '\n']
  members :=
    [{ key := "debug".toList, value := .truth true, beforeKey := [' '], beforeValue := ['\t'] },
      { key := "kernel".toList, value := .text "/boot/k".toList, beforeColon := [' '] }]

theorem read_text_sample :
    sample.WellFormed ∧
      ((∃ s, read sample.text = .ok s) ↔
          (∀ m ∈ sample.members, ∃ key : Key, m.key = key.name.toList) ∧
            (sample.members.map (·.key)).Nodup) ∧
        (∀ s, read sample.text = .ok s →
          (∀ m ∈ sample.members, ∀ key : Key, m.key = key.name.toList → s.value key = m.value) ∧
            ∀ key : Key, key.name.toList ∉ sample.members.map (·.key) →
              s.value key = ({} : Settings).value key) ∧
        (∀ f' : WrittenFile, f'.WellFormed → sample.contents.Perm f'.contents →
          read f'.text = read sample.text) ∧
        (read sample.text).toOption = some { kernel := "/boot/k", debug := true } := by
  have hplain : Plain "debug".toList ∧ Plain "kernel".toList ∧ Plain "/boot/k".toList := by decide
  obtain ⟨hdebug, hkernel, hpath⟩ := hplain
  have hsample : sample.WellFormed := by
    refine ⟨by decide, by decide, by decide, ?_⟩
    refine List.forall_mem_cons.2 ⟨?_, List.forall_mem_singleton.2 ?_⟩
    · exact .of_key .debug rfl hdebug trivial (by decide)
    · exact .of_key .kernel rfl hkernel hpath (by decide)
  obtain ⟨haccepted, hshows, halike⟩ := read_text hsample
  exact ⟨hsample, haccepted, hshows, halike, by decide +kernel⟩

end WrittenFile

end ElfBoot.Settings
