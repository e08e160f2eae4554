import StepGraph.Proofs.Text
import StepGraph.Settings

/-!
# Reading and writing tokens

A token is three parts with colons between, and a part is a text without a colon that is not empty.
Blanks around a token do not count, so they are lost where they belong to its first or last part.

* `ofToken_eq_ok_iff`: a text is read as the credentials whose token it is, up to blanks around it.
* `ofToken_token_iff`: which texts are read, and which credentials are read back from their token.
-/

namespace StepGraph
namespace Credentials

/-- A part of a token. -/
structure IsPart (part : List Char) : Prop where
  ne_nil : part ≠ []
  plain : ':' ∉ part

/-- Three parts with colons between. -/
def IsToken (cs : List Char) : Prop :=
  ∃ parts : List (List Char), parts.length = 3 ∧ (∀ part ∈ parts, IsPart part) ∧
    [':'].intercalate parts = cs

/-- The fields, as the parts of the token. -/
def parts (c : Credentials) : List (List Char) :=
  [c.project.toList, c.apiKey.toList, c.region.toList]

/-- The token has the fields as its parts, and starts and ends without a blank. -/
structure Portable (c : Credentials) : Prop where
  parts : ∀ part ∈ c.parts, IsPart part
  first : ∀ ch ∈ c.project.toList.head?, Text.isBlank ch = false
  last : ∀ ch ∈ c.region.toList.getLast?, Text.isBlank ch = false

variable {t : String} {c : Credentials}

theorem toList_token (c : Credentials) : c.token.toList = [':'].intercalate c.parts := by
  simp [token, parts, List.intercalate_cons_cons]

/-- Credentials are read from a text that its colons cut into their fields, none of them empty. -/
theorem ofToken_eq_ok_iff_splitOn :
    ofToken t = .ok c ↔
      (Text.trim t.toList).splitOn ':' = c.parts ∧ ∀ part ∈ c.parts, part ≠ [] := by
  constructor
  · intro h
    unfold ofToken at h
    split at h
    · rename_i project apiKey region hsplit
      split at h
      · cases h
      · rename_i hfull
        cases h
        simp only [Bool.or_eq_true, List.isEmpty_iff, not_or] at hfull
        simp [parts, hsplit, hfull]
    · cases h
  · rintro ⟨hsplit, hfull⟩
    simp only [parts, List.forall_mem_cons] at hfull
    obtain ⟨hproject, hapiKey, hregion, -⟩ := hfull
    simp [ofToken, hsplit, parts, hproject, hapiKey, hregion]

/-- Credentials are read from the texts that are their token with blanks around it, if their fields
can be parts. -/
theorem ofToken_eq_ok_iff :
    ofToken t = .ok c ↔ (∀ part ∈ c.parts, IsPart part) ∧ Text.Strips t.toList c.token.toList := by
  have hne : c.parts ≠ [] := List.cons_ne_nil _ _
  rw [ofToken_eq_ok_iff_splitOn, Text.splitOn_eq_iff, ← toList_token, eq_comm, Text.trim_eq_iff]
  constructor
  · rintro ⟨⟨-, hplain, hstrips⟩, hfull⟩
    exact ⟨fun part h => ⟨hfull part h, hplain part h⟩, hstrips⟩
  · rintro ⟨hparts, hstrips⟩
    exact ⟨⟨hne, fun part h => (hparts part h).plain, hstrips⟩, fun part h => (hparts part h).ne_nil⟩

/-- There is only one reason why a token is refused. -/
theorem ofToken_eq_error {e : Settings.Error} (h : ofToken t = .error e) : e = .invalidToken := by
  unfold ofToken at h
  split at h
  · split at h <;> cases h
    rfl
  · cases h
    rfl

/-- Three parts are the fields of credentials. -/
theorem isToken_iff {cs : List Char} :
    IsToken cs ↔ ∃ c : Credentials, (∀ part ∈ c.parts, IsPart part) ∧ c.token.toList = cs := by
  constructor
  · rintro ⟨parts, hlength, hparts, rfl⟩
    obtain ⟨project, apiKey, region, rfl⟩ := List.length_eq_three.mp hlength
    let c : Credentials := ⟨String.ofList project, String.ofList apiKey, String.ofList region⟩
    have hfields : c.parts = [project, apiKey, region] := by simp [Credentials.parts, c]
    exact ⟨c, hfields ▸ hparts, hfields ▸ toList_token c⟩
  · rintro ⟨c, hparts, rfl⟩
    exact ⟨c.parts, rfl, hparts, (toList_token c).symm⟩

theorem head?_token (h : c.project.toList ≠ []) :
    c.token.toList.head? = c.project.toList.head? := by
  simp only [token, String.toList_append, List.append_assoc]
  exact List.head?_append_of_ne_nil _ h

theorem getLast?_token (h : c.region.toList ≠ []) :
    c.token.toList.getLast? = c.region.toList.getLast? := by
  simp only [token, String.toList_append]
  exact List.getLast?_append_of_ne_nil _ h

/-- No blanks around a token: its ends are those of its first and of its last part. -/
theorem portable_iff :
    c.Portable ↔ (∀ part ∈ c.parts, IsPart part) ∧ Text.Strips c.token.toList c.token.toList := by
  have hends (hparts : ∀ part ∈ c.parts, IsPart part) :
      c.token.toList.head? = c.project.toList.head? ∧
        c.token.toList.getLast? = c.region.toList.getLast? :=
    ⟨head?_token (hparts _ (by simp [parts])).ne_nil,
      getLast?_token (hparts _ (by simp [parts])).ne_nil⟩
  constructor
  · rintro ⟨hparts, hfirst, hlast⟩
    obtain ⟨hhead, hend⟩ := hends hparts
    exact ⟨hparts, ⟨[], [], List.forall_mem_nil _, List.forall_mem_nil _, by simp⟩,
      hhead ▸ hfirst, hend ▸ hlast⟩
  · rintro ⟨hparts, -, hfirst, hlast⟩
    obtain ⟨hhead, hend⟩ := hends hparts
    exact ⟨hparts, hhead ▸ hfirst, hend ▸ hlast⟩

/-- The texts that can be read are the tokens with blanks around them, and what is read has this
token. Credentials are read back from their own token if and only if they are portable; else the
token is refused, or it is that of other credentials. -/
theorem ofToken_token_iff (t : String) (c : Credentials) :
    ((∃ read, ofToken t = .ok read) ↔ ∃ core, Text.Strips t.toList core ∧ IsToken core) ∧
      (∀ read, ofToken t = .ok read → Text.Strips t.toList read.token.toList) ∧
      (ofToken c.token = .ok c ↔ c.Portable) ∧
      (¬c.Portable → ofToken c.token = .error .invalidToken ∨
        ∃ other, other ≠ c ∧ ofToken c.token = .ok other) := by
  have hportable : ofToken c.token = .ok c ↔ c.Portable := by
    rw [ofToken_eq_ok_iff, portable_iff]
  refine ⟨?_, fun read h => (ofToken_eq_ok_iff.mp h).2, hportable, fun hnot => ?_⟩
  · constructor
    · rintro ⟨read, h⟩
      obtain ⟨hparts, hstrips⟩ := ofToken_eq_ok_iff.mp h
      exact ⟨_, hstrips, isToken_iff.mpr ⟨read, hparts, rfl⟩⟩
    · rintro ⟨core, hstrips, hcore⟩
      obtain ⟨read, hparts, rfl⟩ := isToken_iff.mp hcore
      exact ⟨read, ofToken_eq_ok_iff.mpr ⟨hparts, hstrips⟩⟩
  · cases h : ofToken c.token with
    | error e => exact .inl (by rw [ofToken_eq_error h])
    | ok other =>
      refine .inr ⟨other, ?_, rfl⟩
      rintro rfl
      exact hnot (hportable.mp h)

/-- A token between blanks, with blanks in its middle part, and credentials whose project starts
with a blank. -/
theorem ofToken_token_iff_padded :
    ofToken "\u2003a: b :c\r\n" = .ok ⟨"a", " b ", "c"⟩ ∧
      Text.Strips "\u2003a: b :c\r\n".toList "a: b :c".toList ∧
      ¬Portable ⟨" a", "b", "c"⟩ ∧
      (ofToken " a:b:c" = .error .invalidToken ∨
        ∃ other, other ≠ ⟨" a", "b", "c"⟩ ∧ ofToken " a:b:c" = .ok other) := by
  have hread : ofToken "\u2003a: b :c\r\n" = .ok ⟨"a", " b ", "c"⟩ := by decide
  have hnot : ¬Portable ⟨" a", "b", "c"⟩ := fun h => absurd (h.first ' ' rfl) (by decide)
  obtain ⟨-, hstrips, -, hother⟩ := ofToken_token_iff "\u2003a: b :c\r\n" ⟨" a", "b", "c"⟩
  exact ⟨hread, hstrips _ hread, hnot, hother hnot⟩

end Credentials
end StepGraph
