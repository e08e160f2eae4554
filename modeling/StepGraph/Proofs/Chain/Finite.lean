import StepGraph.Chain.Compile
import StepGraph.Proofs.Param.Finite

/-!
# Compiling finite chains

* `Chain.FloatAt`: the floats of a chain with their places. Their positions are in the order of the
  steps, in a step the parameters before the source, and the output behind the steps.
* `compile_finite`: a chain compiles if all its floats are finite, and else the error has the first
  one that is not, and its place.
-/

namespace StepGraph

/-- A number that is not finite stands in the parameters of the step or in its source, and `e` tells
so when the step stands at `location`. -/
def Step.FaultAt (location : String) (s : Step) (position : Position) (e : SerializationError) :
    Prop :=
  (∃ q, position = 0 :: q ∧
    (Param.object s.params).FaultAt (Param.memberLocation location "params") q e) ∨
  ∃ q, position = 1 :: q ∧ ∃ items, s.source = some (.items items) ∧
    (Param.array items).FaultAt (Param.memberLocation location "foreach") q e

/-- A source fails with its items. -/
theorem Source.finds_substitute (location : String) (source : Source) :
    Finds (fun q e => ∃ items, source = .items items ∧ (Param.array items).FaultAt location q e)
      (failure? (source.substitute location)) := by
  cases source with
  | ref r =>
    refine Finds.none_iff.mpr ?_
    rintro q e ⟨items, h, -⟩
    cases h
  | items values =>
    refine (Param.finds_substitute location (.array values)).of_iff fun q e => ?_
    constructor
    · rintro ⟨items, h, hq⟩
      cases h
      exact hq
    · exact fun h => ⟨values, rfl, h⟩

/-- A step fails with its parameters, and then with its source. -/
theorem Step.finds_compile (location : String) (s : Step) :
    Finds (s.FaultAt location) (failure? (s.compile location)) := by
  have hparams := Param.finds_substitute (Param.memberLocation location "params") (.object s.params)
  rw [Param.substitute, failure?_map] at hparams
  unfold compile
  cases hs : s.source with
  | none =>
    rw [failure?_bind fun params => failure?_bind_pure _ _]
    exact hparams.children (Finds.none_iff.mpr (by simp [hs]))
  | some source =>
    rw [failure?_bind fun params => failure?_bind_pure _ _]
    refine hparams.children ?_
    have hsource := source.finds_substitute (Param.memberLocation location "foreach")
    rw [← failure?_map _ some] at hsource
    exact hsource.of_iff fun q e => by simp [hs]

namespace Chain

/-- The steps of a list that starts at the number `n` fail one after the other. -/
theorem finds_compileSteps (n : Nat) (ss : List Step) :
    Finds (Numbered (fun i s => s.FaultAt (Param.itemLocation stepsLocation i)) n ss)
      (failure? (compileSteps n ss)) := by
  induction ss generalizing n with
  | nil => exact finds_numbered_nil
  | cons s ss ih =>
    rw [compileSteps, failure?_bind fun step => failure?_bind_pure _ _]
    exact finds_numbered_cons (s.finds_compile _) (ih (n + 1))

variable (c : Chain)

theorem finds_compileOutput :
    Finds (fun q e => ∃ members, c.output = some (.mapping members) ∧
      (Param.object members).FaultAt outputLocation q e) (failure? c.compileOutput) := by
  unfold compileOutput
  split
  · rename_i members houtput
    exact (Param.finds_substitute outputLocation (.object members)).of_iff fun q e => by
      simp [houtput]
  · rename_i houtput
    exact Finds.none_iff.mpr (by simp [houtput])
  · rename_i houtput
    exact Finds.none_iff.mpr (by simp [houtput])
  · rename_i houtput
    split <;> exact Finds.none_iff.mpr (by simp [houtput])

/-- The float `x` stands in the chain at `position`. Its place begins with where the parameters, the
source or the output are. -/
inductive FloatAt : Position → String → Binary64 → Prop where
  | param {i : Nat} {s : Step} {position : Position} {place : String} {x : Binary64} :
      c.steps[i]? = some s → (Param.object s.params).At position place (.float x) →
      FloatAt (0 :: i :: 0 :: position)
        ("transformations.steps[" ++ toString i ++ "].params" ++ place) x
  | source {i : Nat} {s : Step} {items : List Param} {position : Position} {place : String}
      {x : Binary64} :
      c.steps[i]? = some s → s.source = some (.items items) →
      (Param.array items).At position place (.float x) →
      FloatAt (0 :: i :: 1 :: position)
        ("transformations.steps[" ++ toString i ++ "].foreach" ++ place) x
  | output {members : List (String × Param)} {position : Position} {place : String}
      {x : Binary64} :
      c.output = some (.mapping members) → (Param.object members).At position place (.float x) →
      FloatAt (1 :: position) ("transformations.output" ++ place) x

/-- Where the key of a step is. -/
theorem stepLocation_eq (i : Nat) (key : String) :
    Param.memberLocation (Param.itemLocation stepsLocation i) key =
      "transformations.steps[" ++ toString i ++ ("]." ++ key) := by
  have hopen : "transformations.steps[" = stepsLocation ++ "[" := by decide
  have hclose : "]." = "]" ++ "." := by decide
  rw [hopen, hclose]
  simp only [Param.memberLocation, Param.itemLocation, String.append_assoc]

/-- The floats that are not finite, in the order of the steps with the output behind them. -/
theorem exists_floatAt_iff {position : Position} {e : SerializationError} :
    (∃ place x, c.FloatAt position place x ∧ x.NotFinite ∧ e = .nonFiniteNumber place x) ↔
      (∃ q, position = 0 :: q ∧
        Numbered (fun i s => s.FaultAt (Param.itemLocation stepsLocation i)) 0 c.steps q e) ∨
      ∃ q, position = 1 :: q ∧ ∃ members, c.output = some (.mapping members) ∧
        (Param.object members).FaultAt outputLocation q e := by
  have hparams (i : Nat) := stepLocation_eq i "params"
  have hforeach (i : Nat) := stepLocation_eq i "foreach"
  constructor
  · rintro ⟨_, x, h, hx, rfl⟩
    cases h with
    | @param i s q place _ hs hq =>
      refine .inl ⟨_, rfl, i, s, _, hs, by simp, .inl ⟨q, rfl, place, x, hq, hx, ?_⟩⟩
      rw [Nat.zero_add, hparams]
      rfl
    | @source i s items q place _ hs hsource hq =>
      refine .inl ⟨_, rfl, i, s, _, hs, by simp, .inr ⟨q, rfl, items, hsource, ?_⟩⟩
      refine ⟨place, x, hq, hx, ?_⟩
      rw [Nat.zero_add, hforeach]
      rfl
    | @output members q place _ houtput hq =>
      exact .inr ⟨q, rfl, members, houtput, place, x, hq, hx, rfl⟩
  · rintro (⟨_, rfl, i, s, _, hs, rfl, h⟩ | ⟨q, rfl, members, houtput, place, x, hq, hx, rfl⟩)
    · rw [Nat.zero_add] at h ⊢
      rcases h with
        ⟨q, rfl, place, x, hq, hx, rfl⟩ | ⟨q, rfl, items, hsource, place, x, hq, hx, rfl⟩
      · exact ⟨_, x, .param hs hq, hx, by rw [hparams]; rfl⟩
      · exact ⟨_, x, .source hs hsource hq, hx, by rw [hforeach]; rfl⟩
    · exact ⟨_, x, .output houtput hq, hx, rfl⟩

/-- Compiling fails because of the first number that is not finite, and only because of it. -/
theorem finds_compile :
    Finds (fun position e => ∃ place x, c.FloatAt position place x ∧ x.NotFinite ∧
      e = .nonFiniteNumber place x) (failure? c.compile) := by
  unfold compile
  rw [failure?_bind fun steps => failure?_bind_pure _ _]
  exact ((finds_compileSteps 0 c.steps).children c.finds_compileOutput).of_iff fun _ _ =>
    c.exists_floatAt_iff

/-- A chain compiles if and only if all its floats are finite. If one is not, the error has the
first one of them, and its place. -/
theorem compile_finite :
    ((∃ g, c.compile = .ok g) ↔ ∀ position place x, c.FloatAt position place x → ¬x.NotFinite) ∧
      ∀ e, c.compile = .error e → ∃ position place x,
        c.FloatAt position place x ∧ x.NotFinite ∧ e = .nonFiniteNumber place x ∧
        ∀ position' place' x', c.FloatAt position' place' x' → x'.NotFinite →
          position ≤ position' := by
  have hfinds := c.finds_compile
  refine ⟨?_, fun e he => ?_⟩
  · rw [← failure?_eq_none]
    constructor
    · intro hok position place x hat hx
      rw [hok] at hfinds
      exact Finds.none_iff.mp hfinds position _ ⟨place, x, hat, hx, rfl⟩
    · intro hfinite
      cases hf : failure? c.compile with
      | none => rfl
      | some e =>
        rw [hf] at hfinds
        obtain ⟨position, ⟨place, x, hat, hx, -⟩, -⟩ := hfinds
        exact absurd hx (hfinite position place x hat)
  · rw [failure?_eq_some.mpr he] at hfinds
    obtain ⟨position, ⟨place, x, hat, hx, heq⟩, hleast⟩ := hfinds
    refine ⟨position, place, x, hat, hx, heq, fun position' place' x' hat' hx' => ?_⟩
    exact hleast position' _ ⟨place', x', hat', hx', rfl⟩

/-- A chain with numbers that are not finite in a source, in the step behind it and in the
output. -/
def unbounded : Chain where
  steps := [
    ⟨"rates", "map", [("from", .float (.finite .zero))], none,
      some (.items [.null, .object [("low", .float (.finite .zero)), ("high", .float .nan)]])⟩,
    ⟨"limits", "http", [("at", .array [.float (.infinite true)])], some .null, none⟩]
  output := some (.mapping [("rate", .float .nan)])

/-- The error is about the number in the source of the first step. -/
theorem compile_unbounded :
    unbounded.compile =
        .error (.nonFiniteNumber "transformations.steps[0].foreach[1].high" .nan) ∧
      ∃ position, unbounded.FloatAt position "transformations.steps[0].foreach[1].high" .nan ∧
        ∀ position' place' x', unbounded.FloatAt position' place' x' → x'.NotFinite →
          position ≤ position' := by
  have herror : unbounded.compile =
      .error (.nonFiniteNumber "transformations.steps[0].foreach[1].high" .nan) := by rfl
  obtain ⟨position, place, x, hat, -, heq, hleast⟩ := (compile_finite unbounded).2 _ herror
  cases heq
  exact ⟨herror, position, hat, hleast⟩

end Chain
end StepGraph
