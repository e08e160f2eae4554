import Mathlib.Data.List.Chain
import Mathlib.Data.List.Infix
import StepGraph.Proofs.Text
import StepGraph.Template

/-!
# Templates are found again

A text is scanned for braces, and nothing tells the scan which of them were put there by a template.
Still it finds exactly the templates that were woven into a text (`pathsIn_of_woven`), if no brace
of the text around them joins one of theirs:

* a literal has no doubled opening brace, and does not end in an opening brace before a template;
* a path has no doubled closing brace and does not end in a closing brace.

`paths_weave` says the same of references that are put between the literals of a text.

Woven texts stay woven when they are put together (`Woven.append`), when blanks are taken off them
(`Woven.trim`) and when every character but the braces is replaced (`Woven.flatMap`).
-/

namespace StepGraph
namespace Template

/-! ## Doubled characters -/

/-- The character does not come twice in a row. -/
def Single (c : Char) (cs : List Char) : Prop := ¬[c, c] <:+: cs

instance (c : Char) (cs : List Char) : Decidable (Single c cs) :=
  inferInstanceAs (Decidable (¬_ <:+: _))

/-- The character does not come twice in a row, nor at the end. So it comes twice in a row for the
first time behind the text, if it does there. -/
structure Clear (c : Char) (cs : List Char) : Prop where
  single : Single c cs
  last : cs.getLast? ≠ some c

variable {c : Char} {cs : List Char}

theorem single_of_not_mem (h : c ∉ cs) : Single c cs :=
  fun hc => h (hc.subset (List.mem_cons_self ..))

theorem clear_of_not_mem (h : c ∉ cs) : Clear c cs where
  single := single_of_not_mem h
  last hl := h (List.mem_of_getLast? hl)

theorem Single.tail {a : Char} (h : Single c (a :: cs)) : Single c cs :=
  fun hc => h (hc.trans (List.suffix_cons a cs).isInfix)

theorem Single.not_both {a b : Char} (h : Single c (a :: b :: cs)) : ¬(a = c ∧ b = c) := by
  rintro ⟨rfl, rfl⟩
  exact h (List.prefix_append _ cs).isInfix

theorem Clear.tail {a b : Char} (h : Clear c (a :: b :: cs)) : Clear c (b :: cs) where
  single := h.single.tail
  last := by simpa using h.last

theorem Clear.ne {a : Char} (h : Clear c [a]) : a ≠ c := by
  rintro rfl
  exact h.last rfl

/-- The character is nowhere its own neighbour. -/
theorem single_iff_isChain : Single c cs ↔ cs.IsChain fun a b => ¬(a = c ∧ b = c) := by
  rw [List.isChain_iff_forall_rel_of_append_cons_cons]
  constructor
  · rintro h a b before after rfl ⟨rfl, rfl⟩
    exact h ⟨before, after, by simp⟩
  · rintro h ⟨before, after, rfl⟩
    have hsplit : before ++ [c, c] ++ after = before ++ c :: c :: after := by simp
    exact h hsplit ⟨rfl, rfl⟩

/-- Two texts have the character twice in a row where one of them has, or where they meet. -/
theorem single_append {ds : List Char} :
    Single c (cs ++ ds) ↔
      Single c cs ∧ Single c ds ∧ (cs.getLast? = some c → ds.head? ≠ some c) := by
  rw [single_iff_isChain, single_iff_isChain, single_iff_isChain, List.isChain_append]
  refine and_congr_right fun _ => and_congr_right fun _ => ?_
  constructor
  · exact fun h hlast hhead => h c hlast c hhead ⟨rfl, rfl⟩
  · rintro h a ha b hb ⟨rfl, rfl⟩
    exact h ha hb

theorem single_singleton (c : Char) : Single c [c] :=
  fun hc => Nat.not_succ_le_self 1 hc.length_le

/-- A text is clear of a character if one more of it does not make two in a row. -/
theorem clear_iff : Clear c cs ↔ Single c (cs ++ [c]) := by
  rw [single_append]
  constructor
  · intro h
    exact ⟨h.single, single_singleton c, fun hlast => absurd hlast h.last⟩
  · rintro ⟨hsingle, -, hlast⟩
    exact ⟨hsingle, fun h => hlast h rfl⟩

/-! ## The two searches -/

/-- In a literal no template opens. -/
theorem afterOpen_eq_none (h : Single openBrace cs) : afterOpen cs = none := by
  induction cs using afterOpen.induct with
  | case1 a b cs hab => exact absurd hab h.not_both
  | case2 a b cs hab ih =>
    rw [afterOpen, if_neg hab]
    exact ih h.tail
  | case3 cs hcs =>
    unfold afterOpen
    split
    · exact absurd rfl (hcs _ _ _)
    · rfl

/-- A template opens right behind the literal before it. -/
theorem afterOpen_append (h : Clear openBrace cs) (rest : List Char) :
    afterOpen (cs ++ openBrace :: openBrace :: rest) = some rest := by
  induction cs with
  | nil => exact if_pos ⟨rfl, rfl⟩
  | cons a cs ih =>
    cases cs with
    | nil =>
      show afterOpen (a :: openBrace :: openBrace :: rest) = some rest
      rw [afterOpen, if_neg fun hab => h.ne hab.1]
      exact if_pos ⟨rfl, rfl⟩
    | cons b cs =>
      show afterOpen (a :: b :: (cs ++ openBrace :: openBrace :: rest)) = some rest
      rw [afterOpen, if_neg h.single.not_both]
      exact ih h.tail

theorem splitCloseFrom_append (h : Clear closeBrace cs) (seen rest : List Char) :
    splitCloseFrom seen (cs ++ closeBrace :: closeBrace :: rest) =
      some (seen.reverse ++ cs, rest) := by
  induction cs generalizing seen with
  | nil =>
    rw [List.append_nil]
    exact if_pos ⟨rfl, rfl⟩
  | cons a cs ih =>
    cases cs with
    | nil =>
      show splitCloseFrom seen (a :: closeBrace :: closeBrace :: rest) = _
      rw [splitCloseFrom, if_neg fun hab => h.ne hab.1, splitCloseFrom, if_pos ⟨rfl, rfl⟩,
        List.reverse_cons]
    | cons b cs =>
      show splitCloseFrom seen (a :: b :: (cs ++ closeBrace :: closeBrace :: rest)) = _
      rw [splitCloseFrom, if_neg h.single.not_both]
      refine (ih h.tail (a :: seen)).trans ?_
      rw [List.reverse_cons, List.append_assoc, List.singleton_append]

/-- A template closes right behind its path. -/
theorem splitClose_append (h : Clear closeBrace cs) (rest : List Char) :
    splitClose (cs ++ closeBrace :: closeBrace :: rest) = some (cs, rest) :=
  splitCloseFrom_append h [] rest

/-! ## The scan -/

theorem pathsIn_of_afterOpen_eq_none (h : afterOpen cs = none) : pathsIn cs = [] := by
  unfold pathsIn
  split
  · rfl
  · rename_i body hbody
    rw [h] at hbody
    cases hbody

/-- The scan takes the first template and goes on behind it. -/
theorem pathsIn_of_split {body inside rest : List Char} (hopen : afterOpen cs = some body)
    (hclose : splitClose body = some (inside, rest)) :
    pathsIn cs = if (Text.trim inside).isEmpty then pathsIn rest
      else Text.trim inside :: pathsIn rest := by
  rw [pathsIn]
  split
  · rename_i hnone
    rw [hopen] at hnone
    cases hnone
  · rename_i body' hbody
    rw [hopen] at hbody
    cases hbody
    split
    · rename_i hnone
      rw [hclose] at hnone
      cases hnone
    · rename_i inside' rest' hsplit
      rw [hclose] at hsplit
      cases hsplit
      rfl

/-- The text is made of literals with the templates of `paths` between them. -/
inductive Woven : (paths : List (List Char)) → List Char → Prop
  | literal {text : List Char} : Single openBrace text → Woven [] text
  | template {literal path : List Char} {paths : List (List Char)} {rest : List Char} :
      Clear openBrace literal → Clear closeBrace path → Woven paths rest →
      Woven (path :: paths) (literal ++ ofPath path ++ rest)

/-- A template alone. -/
theorem woven_ofPath {path : List Char} (h : Clear closeBrace path) :
    Woven [path] (ofPath path) := by
  have hnil : Woven [] [] := .literal (single_of_not_mem List.not_mem_nil)
  have hwoven := Woven.template (clear_of_not_mem List.not_mem_nil) h hnil
  rwa [List.nil_append, List.append_nil] at hwoven

/-- The paths that were woven into a text, without blanks around them, are those that the scan
finds. A blank path is not found. -/
theorem pathsIn_of_woven {paths : List (List Char)} (h : Woven paths cs) :
    pathsIn cs = (paths.map Text.trim).filter (!·.isEmpty) := by
  induction h with
  | literal h => exact pathsIn_of_afterOpen_eq_none (afterOpen_eq_none h)
  | @template literal path paths rest hliteral hpath _ ih =>
    have hopen : afterOpen (literal ++ ofPath path ++ rest) =
        some (path ++ closeBrace :: closeBrace :: rest) := by
      have htext : literal ++ ofPath path ++ rest =
          literal ++ openBrace :: openBrace :: (path ++ closeBrace :: closeBrace :: rest) := by
        simp [ofPath]
      rw [htext, afterOpen_append hliteral]
    rw [pathsIn_of_split hopen (splitClose_append hpath rest), ih]
    by_cases hempty : (Text.trim path).isEmpty = true
    · simp [hempty]
    · simp [hempty]

/-! ## Texts made of woven texts -/

/-- Woven texts that do not make a doubled opening brace where they meet are a woven text. -/
theorem Woven.append {paths paths' : List (List Char)} {ds : List Char} (h : Woven paths cs)
    (h' : Woven paths' ds) (hmeet : cs.getLast? = some openBrace → ds.head? ≠ some openBrace) :
    Woven (paths ++ paths') (cs ++ ds) := by
  induction h with
  | @literal text htext =>
    rw [List.nil_append]
    cases h' with
    | literal hds => exact .literal (single_append.mpr ⟨htext, hds, hmeet⟩)
    | @template literal path paths rest hliteral hpath hrest =>
      -- Before a template the two literals are one.
      have hclear : Clear openBrace (text ++ literal) := by
        rw [clear_iff, List.append_assoc, single_append]
        refine ⟨htext, clear_iff.mp hliteral, fun hlast => ?_⟩
        cases literal with
        | nil => exact absurd rfl (hmeet hlast)
        | cons a literal => exact hmeet hlast
      have hwoven := Woven.template hclear hpath hrest
      simpa only [List.append_assoc] using hwoven
  | @template literal path paths rest hliteral hpath _ ih =>
    have hrest := ih fun hlast => hmeet (by rw [List.getLast?_append, hlast]; rfl)
    have hwoven := Woven.template hliteral hpath hrest
    simpa only [List.append_assoc, List.cons_append] using hwoven

/-- What stands before the first opening brace can be taken away. -/
theorem Woven.of_append {paths : List (List Char)} {before : List Char}
    (hbefore : openBrace ∉ before) (h : Woven paths (before ++ cs)) : Woven paths cs := by
  induction before with
  | nil => exact h
  | cons a before ih =>
    obtain ⟨ha, hbefore⟩ := List.forall_mem_cons.mp fun b hb => ne_of_mem_of_not_mem hb hbefore
    refine ih (fun hb => hbefore _ hb rfl) ?_
    generalize htext : a :: before ++ cs = text at h
    cases h with
    | literal hsingle =>
      subst htext
      exact .literal hsingle.tail
    | @template literal path paths rest hliteral hpath hrest =>
      cases literal with
      | nil => exact absurd (List.cons.inj htext).1 ha
      | cons b literal =>
        have htext : before ++ cs = literal ++ ofPath path ++ rest := (List.cons.inj htext).2
        have hclear : Clear openBrace literal := clear_iff.mpr (clear_iff.mp hliteral).tail
        rw [htext]
        exact .template hclear hpath hrest

theorem getLast?_ofPath (path : List Char) : (ofPath path).getLast? = some closeBrace := by
  show ((openBrace :: openBrace :: path) ++ [closeBrace, closeBrace]).getLast? = some closeBrace
  rw [List.getLast?_append]
  rfl

/-- What stands behind the last closing brace can be taken away. -/
theorem Woven.of_append_right {paths : List (List Char)} {after : List Char}
    (hafter : closeBrace ∉ after) (h : Woven paths (cs ++ after)) : Woven paths cs := by
  generalize htext : cs ++ after = text at h
  induction h generalizing cs with
  | literal hsingle =>
    subst htext
    exact .literal (single_append.mp hsingle).1
  | @template literal path paths rest hliteral hpath _ ih =>
    obtain ⟨ds, hend, hrest⟩ | ⟨ds, hcs, hrest⟩ := List.append_eq_append_iff.mp htext
    · -- The text ends inside of the template, or right behind it.
      by_cases hempty : ds = []
      · subst hempty
        rw [List.append_nil] at hend
        have hnil : Woven paths [] := ih hrest
        have hwoven := Woven.template hliteral hpath hnil
        rwa [List.append_nil, hend] at hwoven
      · have hlast := congrArg List.getLast? hend
        rw [List.getLast?_append_of_ne_nil _ hempty, List.getLast?_append, getLast?_ofPath,
          Option.some_or] at hlast
        rw [hrest] at hafter
        exact absurd (List.mem_append_left _ (List.mem_of_getLast? hlast.symm)) hafter
    · rw [hcs]
      exact .template hliteral hpath (ih hrest.symm)

theorem not_mem_of_isBlank {brace : Char} (hbrace : Text.isBlank brace = false)
    (h : ∀ c ∈ cs, Text.isBlank c = true) : brace ∉ cs := by
  intro hmem
  rw [h brace hmem] at hbrace
  cases hbrace

/-- Blanks around a woven text belong to its literals. -/
theorem Woven.trim {paths : List (List Char)} (h : Woven paths cs) :
    Woven paths (Text.trim cs) := by
  obtain ⟨before, after, hbefore, hafter, htext⟩ := (Text.strips_trim cs).around
  rw [htext] at h
  have hcore := h.of_append (not_mem_of_isBlank rfl hbefore)
  exact hcore.of_append_right (not_mem_of_isBlank rfl hafter)

/-- Characters become texts, and the brace is in no text but its own. -/
structure Keeps (f : Char → List Char) (brace : Char) : Prop where
  self : f brace = [brace]
  eq_of_mem : ∀ a, brace ∈ f a → a = brace
  ne_nil : ∀ a, f a ≠ []

theorem Keeps.not_mem_flatMap {f : Char → List Char} (hf : Keeps f c) (h : c ∉ cs) :
    c ∉ cs.flatMap f := by
  intro hmem
  obtain ⟨a, ha, hc⟩ := List.mem_flatMap.mp hmem
  exact h (hf.eq_of_mem a hc ▸ ha)

theorem Single.flatMap {f : Char → List Char} (hf : Keeps f c) (h : Single c cs) :
    Single c (cs.flatMap f) := by
  induction cs with
  | nil => exact h
  | cons a cs ih =>
    rw [List.flatMap_cons, single_append]
    refine ⟨?_, ih h.tail, fun hlast hhead => ?_⟩
    · by_cases ha : a = c
      · rw [ha, hf.self]
        exact single_singleton c
      · exact single_of_not_mem (mt (hf.eq_of_mem a) ha)
    · cases cs with
      | nil => cases hhead
      | cons b cs =>
        rw [List.flatMap_cons, List.head?_append_of_ne_nil _ (hf.ne_nil b)] at hhead
        have ha := hf.eq_of_mem a (List.mem_of_getLast? hlast)
        have hb := hf.eq_of_mem b (List.mem_of_head? hhead)
        exact h.not_both ⟨ha, hb⟩

theorem Clear.flatMap {f : Char → List Char} (hf : Keeps f c) (h : Clear c cs) :
    Clear c (cs.flatMap f) := by
  have hsingle := (clear_iff.mp h).flatMap hf
  rwa [List.flatMap_append, List.flatMap_singleton, hf.self, ← clear_iff] at hsingle

/-- Replacing characters other than the braces replaces them in the literals and in the paths. -/
theorem Woven.flatMap {paths : List (List Char)} {f : Char → List Char} (hopen : Keeps f openBrace)
    (hclose : Keeps f closeBrace) (h : Woven paths cs) :
    Woven (paths.map (·.flatMap f)) (cs.flatMap f) := by
  induction h with
  | literal hsingle => exact .literal (hsingle.flatMap hopen)
  | @template literal path paths rest hliteral hpath _ ih =>
    have htemplate : (ofPath path).flatMap f = ofPath (path.flatMap f) := by
      simp [ofPath, hopen.self, hclose.self]
    rw [List.flatMap_append, List.flatMap_append, htemplate]
    exact .template (hliteral.flatMap hopen) (hpath.flatMap hclose) ih

/-- A path that is there and has no blanks around it. -/
structure Tight (path : List Char) : Prop where
  ne_nil : path ≠ []
  first : ∀ c, path.head? = some c → Text.isBlank c = false
  last : ∀ c, path.getLast? = some c → Text.isBlank c = false

theorem tight_of_ends {path : List Char} (first last : Char) (hfirst : path.head? = some first)
    (hlast : path.getLast? = some last) (hf : Text.isBlank first = false)
    (hl : Text.isBlank last = false) : Tight path where
  ne_nil := by
    rintro rfl
    cases hfirst
  first c hc := by
    rw [hfirst] at hc
    cases hc
    exact hf
  last c hc := by
    rw [hlast] at hc
    cases hc
    exact hl

/-- Paths without blanks around them are found as they are. -/
theorem pathsIn_of_woven_tight {paths : List (List Char)} (h : Woven paths cs)
    (htight : ∀ path ∈ paths, Tight path) : pathsIn cs = paths := by
  have htrim : paths.map Text.trim = paths := by
    refine (List.map_congr_left fun path hpath => ?_).trans (List.map_id paths)
    exact Text.trim_eq_self (htight path hpath).first (htight path hpath).last
  rw [pathsIn_of_woven h, htrim, List.filter_eq_self]
  intro path hpath
  simpa using (htight path hpath).ne_nil

/-! ## References in a text -/

/-- A text with references in it: every part is a literal with a reference behind it, and the last
literal follows. -/
def weave : (parts : List (String × Reference)) → (last : String) → String
  | [], last => last
  | (literal, r) :: parts, last => literal ++ r.template ++ weave parts last

/-- The template of the reference can be told from the literal before it, and its path from the
braces and blanks around it. -/
structure Findable (literal : String) (r : Reference) : Prop where
  literal : Clear openBrace literal.toList
  path : Clear closeBrace r.path.toList
  tight : Tight r.path.toList

theorem woven_weave {parts : List (String × Reference)} {last : String}
    (hparts : ∀ part ∈ parts,
      Clear openBrace part.1.toList ∧ Clear closeBrace part.2.path.toList)
    (hlast : Single openBrace last.toList) :
    Woven (parts.map fun part => part.2.path.toList) (weave parts last).toList := by
  induction parts with
  | nil => exact .literal hlast
  | cons part parts ih =>
    obtain ⟨⟨hliteral, hpath⟩, hparts⟩ := List.forall_mem_cons.mp hparts
    rw [weave, String.toList_append, String.toList_append, Reference.template,
      String.toList_ofList]
    exact .template hliteral hpath (ih hparts)

/-- A scan of a text finds the references that were put into it, in order and with their paths as
they are. Every literal may have braces and every path too, as long as none of them is taken for one
of a template. -/
theorem paths_weave {parts : List (String × Reference)} {last : String}
    (hparts : ∀ part ∈ parts, Findable part.1 part.2) (hlast : Single openBrace last.toList) :
    paths (weave parts last) = parts.map (·.2.path) := by
  have htight : ∀ path ∈ parts.map (fun part => part.2.path.toList), Tight path := by
    rw [List.forall_mem_map]
    exact fun part hpart => (hparts part hpart).tight
  have hwoven := woven_weave (fun part hpart => ⟨(hparts part hpart).literal,
    (hparts part hpart).path⟩) hlast
  rw [paths, pathsIn_of_woven_tight hwoven htight, List.map_map]
  exact List.map_congr_left fun part _ => String.ofList_toList

/-- Braces next to those of the templates: in front of them, in a path and behind them. -/
def bracedParts : List (String × Reference) :=
  [("\x7b a\x7d", ⟨"\x7b\x7bp q\x7d.r"⟩), ("\x7d\x7d\x7b-", Reference.params.field "x")]

theorem paths_weave_bracedParts :
    (∀ part ∈ bracedParts, Findable part.1 part.2) ∧ Single openBrace "\x7d \x7b".toList ∧
      weave bracedParts "\x7d \x7b" = "\x7b a\x7d\x7b\x7b\x7b\x7bp q\x7d.r\x7d\x7d" ++
        "\x7d\x7d\x7b-\x7b\x7bparams.x\x7d\x7d\x7d \x7b" ∧
      paths (weave bracedParts "\x7d \x7b") = ["\x7b\x7bp q\x7d.r", "params.x"] := by
  have hfirst : Findable "\x7b a\x7d" ⟨"\x7b\x7bp q\x7d.r"⟩ :=
    ⟨⟨by decide, by decide⟩, ⟨by decide, by decide⟩, tight_of_ends '\x7b' 'r' rfl rfl rfl rfl⟩
  have hsecond : Findable "\x7d\x7d\x7b-" (Reference.params.field "x") :=
    ⟨⟨by decide, by decide⟩, ⟨by decide, by decide⟩, tight_of_ends 'p' 'x' rfl rfl rfl rfl⟩
  have hparts : ∀ part ∈ bracedParts, Findable part.1 part.2 :=
    List.forall_mem_cons.mpr ⟨hfirst, List.forall_mem_singleton.mpr hsecond⟩
  have hlast : Single openBrace "\x7d \x7b".toList := by decide
  exact ⟨hparts, hlast, by decide +kernel, paths_weave hparts hlast⟩

end Template
end StepGraph
