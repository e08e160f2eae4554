import Mathlib.Data.List.Nodup
import Mathlib.Logic.Function.Iterate
import Mathlib.Order.Bounds.Basic
import StepGraph.Proofs.Chain.Naming

/-!
# The search for the next name

To name a step, a namer looks up one candidate after the other until one is free. The candidates are
distinct, and those that are passed over are names of steps, so there are not more of them than
steps. The name that is found depends on the steps alone: names that have been given to steps that
were dropped again leave nothing behind.

* `Namer.probe`: one look-up of the search, `Namer.exists_probes`: how many look-ups it takes.
* `Chain.NextName`: the name that a list of steps leaves for the next step of a transformation.
* `Chain.nextName_of_reachable`: in a reachable chain the search ends with this name.
-/

namespace StepGraph
namespace Namer

/-! ## One look-up after the other -/

/-- Where the search stands: the candidate that is looked up next, or the name that was free. -/
inductive Search where
  | bare
  | suffix (k : Nat)
  | found (name : String)
  deriving DecidableEq

variable {n : Namer} {t : String}

/-- The first candidate for the name of a step of the transformation. -/
def searchStart (n : Namer) (t : String) : Search :=
  if n.count t = 0 then .bare else .suffix (n.count t + 1)

/-- Looks up one candidate. -/
def probe (n : Namer) (t : String) : Search → Search
  | .bare => if n.isTaken t then .suffix (n.count t + 1) else .found t
  | .suffix k =>
    if n.isTaken (suffixed t k) then .suffix (k + 1) else .found (suffixed t k)
  | .found name => .found name

theorem isTaken_iff {name : String} : n.isTaken name = true ↔ name ∈ n.taken :=
  List.contains_iff_mem

/-- The search passes over the suffixes that are taken, and ends at the first one that is free. -/
theorem probe_iterate_suffix {k last : Nat} (hk : k ≤ last) (hfree : suffixed t last ∉ n.taken)
    (htaken : ∀ j, k ≤ j → j < last → suffixed t j ∈ n.taken) :
    (n.probe t)^[last - k + 1] (.suffix k) = .found (suffixed t last) := by
  induction hm : last - k generalizing k with
  | zero =>
    obtain rfl : k = last := by omega
    exact if_neg (mt isTaken_iff.mp hfree)
  | succ m ih =>
    have hprobe : n.probe t (.suffix k) = .suffix (k + 1) :=
      if_pos (isTaken_iff.mpr (htaken k (Nat.le_refl k) (by omega)))
    rw [Function.iterate_succ_apply, hprobe]
    exact ih (by omega) (fun j hj => htaken j (by omega)) (by omega)

/-! ## The name that is found -/

theorem nextName_bare (hcount : n.count t = 0) (hfree : t ∉ n.taken) : n.nextName t = t :=
  if_pos ⟨hcount, by simpa [isTaken] using hfree⟩

/-- If the bare name is not to be had, the next step gets the least free suffix that is greater than
the number of steps of the transformation. -/
theorem nextName_suffixed (h : n.count t ≠ 0 ∨ t ∈ n.taken) :
    ∃ k, IsLeast {k | n.count t + 1 ≤ k ∧ suffixed t k ∉ n.taken} k ∧
      n.nextName t = suffixed t k := by
  have hnot : ¬(n.count t = 0 ∧ n.isTaken t = false) := by
    rintro ⟨hcount, hfree⟩
    rw [← Bool.not_eq_true, isTaken_iff] at hfree
    exact h.elim (· hcount) hfree
  obtain ⟨k, hk, hname, hfree, htaken⟩ := firstFree_spec n.taken t (n.count t + 1)
  refine ⟨k, ⟨⟨hk, hfree⟩, fun j hj => ?_⟩, ?_⟩
  · by_contra hlt
    exact hj.2 (htaken j hj.1 (by omega))
  · rw [nextName, if_neg hnot, hname]

/-! ## How many look-ups it takes -/

/-- The candidates with the suffixes from `first` up to `last`. -/
def passed (t : String) (first last : Nat) : List String :=
  (List.range' first (last - first)).map (suffixed t)

/-- All candidates differ, the bare name included. -/
theorem nodup_passed (t : String) (first last : Nat) : (t :: passed t first last).Nodup := by
  refine List.nodup_cons.mpr ⟨fun hbare => ?_, ?_⟩
  · obtain ⟨k, -, hk⟩ := List.mem_map.mp hbare
    exact suffixed_ne t k hk
  · exact (List.nodup_range' 1).map fun _ _ => suffixed_inj

/-- The suffixes below the least one that is free are taken. -/
theorem taken_of_isLeast {first last : Nat}
    (h : IsLeast {k | first ≤ k ∧ suffixed t k ∉ n.taken} last) {j : Nat} (hj : first ≤ j)
    (hlast : j < last) : suffixed t j ∈ n.taken := by
  by_contra hfree
  exact absurd (h.2 ⟨hj, hfree⟩) (by omega)

theorem passed_subset {first last : Nat}
    (h : IsLeast {k | first ≤ k ∧ suffixed t k ∉ n.taken} last) :
    passed t first last ⊆ n.taken := by
  intro name hname
  obtain ⟨j, hj, rfl⟩ := List.mem_map.mp hname
  obtain ⟨hfirst, hlast⟩ := List.mem_range'_1.mp hj
  exact taken_of_isLeast h hfirst (by omega)

/-- The search ends, with the next name, after at most one look-up more than there are names. The
candidates that it passes over are different names that are taken. -/
theorem exists_probes {names : List String} (h : n.taken ⊆ names) :
    ∃ m ≤ names.length + 1, (n.probe t)^[m] (n.searchStart t) = .found (n.nextName t) := by
  by_cases hbare : n.count t = 0 ∧ t ∉ n.taken
  · refine ⟨1, by omega, ?_⟩
    rw [nextName_bare hbare.1 hbare.2, searchStart, if_pos hbare.1]
    exact if_neg (mt isTaken_iff.mp hbare.2)
  · rw [not_and_or, not_not] at hbare
    obtain ⟨last, hlast, hname⟩ := nextName_suffixed hbare
    have hsearch := probe_iterate_suffix hlast.1.1 hlast.1.2 fun j => taken_of_isLeast hlast
    have hsubset := List.Subset.trans (passed_subset hlast) h
    have hnodup := nodup_passed t (n.count t + 1) last
    by_cases hcount : n.count t = 0
    · -- The bare name has been looked up in vain before the first suffix.
      have htaken : t ∈ n.taken := hbare.resolve_left (· hcount)
      have hlength := hnodup.length_le_of_subset (List.cons_subset.mpr ⟨h htaken, hsubset⟩)
      refine ⟨last - (n.count t + 1) + 1 + 1, by simp [passed] at hlength; omega, ?_⟩
      have hprobe : n.probe t .bare = .suffix (n.count t + 1) := if_pos (isTaken_iff.mpr htaken)
      rw [searchStart, if_pos hcount, Function.iterate_succ_apply, hprobe, hsearch, hname]
    · have hlength := (List.nodup_cons.mp hnodup).2.length_le_of_subset hsubset
      refine ⟨last - (n.count t + 1) + 1, by simp [passed] at hlength; omega, ?_⟩
      rw [searchStart, if_neg hcount, hsearch, hname]

end Namer

namespace Chain

/-- A step has the transformation, or is named like it. -/
def Uses (steps : List Step) (t : String) : Prop :=
  ∃ s ∈ steps, s.transformation = t ∨ s.name = t

/-- The name that the steps leave for the next step of a transformation: the bare one, or the one
with the least free suffix that is greater than the number of its steps. -/
inductive NextName (steps : List Step) (t : String) : String → Prop
  | bare : ¬Uses steps t → NextName steps t t
  | suffixed {k : Nat} : Uses steps t →
      IsLeast {k | 1 + steps.countP (·.transformation == t) ≤ k ∧
        ∀ s ∈ steps, s.name ≠ Namer.suffixed t k} k →
      NextName steps t (Namer.suffixed t k)

/-- The steps leave one name. -/
theorem NextName.unique {steps : List Step} {t name other : String} (h : NextName steps t name)
    (h' : NextName steps t other) : name = other := by
  cases h with
  | bare hunused =>
    cases h' with
    | bare _ => rfl
    | suffixed hused _ => exact absurd hused hunused
  | suffixed hused hk =>
    cases h' with
    | bare hunused => exact absurd hused hunused
    | suffixed _ hk' => rw [hk.unique hk']

variable {c : Chain}

theorem Named.uses_iff (h : c.Named) (t : String) :
    Uses c.steps t ↔ c.namer.count t ≠ 0 ∨ t ∈ c.namer.taken := by
  rw [h.count, h.taken, ← Nat.pos_iff_ne_zero, List.countP_pos_iff, List.mem_map, Uses]
  simp only [beq_iff_eq, and_or_left, exists_or]

/-- The suffixes that are free for the namer are those that no step has. -/
theorem Named.freeSuffixes_eq (h : c.Named) (t : String) :
    {k | 1 + c.steps.countP (·.transformation == t) ≤ k ∧
      ∀ s ∈ c.steps, s.name ≠ Namer.suffixed t k} =
      {k | c.namer.count t + 1 ≤ k ∧ Namer.suffixed t k ∉ c.namer.taken} := by
  ext k
  simp only [Set.mem_ofPred_eq, h.count, h.taken, List.mem_map, not_exists, not_and, Nat.add_comm]

/-- A namer that is in step with the chain gives the name that the steps leave. -/
theorem Named.nextName (h : c.Named) (t : String) :
    NextName c.steps t (c.namer.nextName t) := by
  by_cases hused : Uses c.steps t
  · obtain ⟨k, hk, hname⟩ := Namer.nextName_suffixed ((h.uses_iff t).mp hused)
    rw [hname]
    exact .suffixed hused (h.freeSuffixes_eq t ▸ hk)
  · have hfree := mt (h.uses_iff t).mpr hused
    rw [not_or, not_not] at hfree
    rw [Namer.nextName_bare hfree.1 hfree.2]
    exact .bare hused

/-- In a reachable chain the search for the next name ends after at most one look-up more than there
are steps, with the name that the steps leave. So chains with the same steps give the same name,
whatever has failed or has been dropped before. -/
theorem nextName_of_reachable (h : Script.Reachable c) (t : String) :
    (∃ m ≤ c.steps.length + 1,
        (c.namer.probe t)^[m] (c.namer.searchStart t) = .found (c.namer.nextName t)) ∧
      NextName c.steps t (c.namer.nextName t) ∧
      ∀ d, Script.Reachable d → d.steps = c.steps →
        d.namer.nextName t = c.namer.nextName t := by
  have hc := named_of_reachable h
  refine ⟨?_, hc.nextName t, fun d hd hsteps => ?_⟩
  · have hprobes := Namer.exists_probes (t := t) fun name => (hc.taken name).mp
    rwa [List.length_map] at hprobes
  · have hname := (named_of_reachable hd).nextName t
    rw [hsteps] at hname
    exact hname.unique (hc.nextName t)

/-- The steps that `reissuedName` leaves, added without any that are dropped. -/
def undisturbed : Script :=
  .call (fun _ => .addNamedStep "split_text_2" "custom" []) none .propagate <|
    .call (fun _ => .addStep "split_text" []) none .propagate .done

/-- The second step of the transformation gets the third number, with and without the steps that
have been dropped. -/
theorem nextName_of_reissuedName :
    Script.Reachable (reissuedName.run {} fun _ => .params).chain ∧
      Script.Reachable (undisturbed.run {} fun _ => .params).chain ∧
      (undisturbed.run {} fun _ => .params).chain.steps =
        (reissuedName.run {} fun _ => .params).chain.steps ∧
      (reissuedName.run {} fun _ => .params).chain.namer.nextName "split_text" = "split_text_3" ∧
      (∃ m ≤ 3, ((reissuedName.run {} fun _ => .params).chain.namer.probe "split_text")^[m]
        ((reissuedName.run {} fun _ => .params).chain.namer.searchStart "split_text") =
          .found "split_text_3") ∧
      NextName (reissuedName.run {} fun _ => .params).chain.steps "split_text" "split_text_3" ∧
      (undisturbed.run {} fun _ => .params).chain.namer.nextName "split_text" = "split_text_3" := by
  have hc : Script.Reachable (reissuedName.run {} fun _ => .params).chain :=
    ⟨{}, _, reissuedName, .new, .inl rfl⟩
  have hd : Script.Reachable (undisturbed.run {} fun _ => .params).chain :=
    ⟨{}, _, undisturbed, .new, .inl rfl⟩
  have hsteps : (undisturbed.run {} fun _ => .params).chain.steps =
      (reissuedName.run {} fun _ => .params).chain.steps := rfl
  have hname : (reissuedName.run {} fun _ => .params).chain.namer.nextName "split_text" =
      "split_text_3" := by decide +kernel
  obtain ⟨hprobes, hnext, hsame⟩ := nextName_of_reachable hc "split_text"
  rw [hname] at hprobes hnext hsame
  exact ⟨hc, hd, hsteps, hname, hprobes, hnext, hsame _ hd hsteps⟩

end Chain
end StepGraph
