import StepGraph.Proofs.Chain.Compile
import StepGraph.Proofs.Document.Graph

/-!
# Compiled chains read back

Compiling keeps the keys of every mapping and writes a list or a template for every source, so the
graph of a chain is determined by its text as soon as the schemas of the parameters are. The text
must not nest too deep, and the floats in it must be read back as they were printed.

* `Param.keysOnce_of_substitute`: substitution makes no key double.
* `restorable_of_compile`: what a chain compiles to is determined by its text.
* `ofText?_of_compile`: the text of a compiled chain is read back.
-/

namespace StepGraph

namespace Param

mutual

/-- No mapping in the parameter has a key twice. -/
def KeysOnce : Param → Prop
  | .array items => ItemsKeysOnce items
  | .object members => (Dict.keys members).Nodup ∧ MembersKeysOnce members
  | _ => True

/-- No mapping in the items has a key twice. -/
def ItemsKeysOnce : List Param → Prop
  | [] => True
  | p :: ps => KeysOnce p ∧ ItemsKeysOnce ps

/-- No mapping in the values of the members has a key twice. -/
def MembersKeysOnce : List (String × Param) → Prop
  | [] => True
  | (_, p) :: ms => KeysOnce p ∧ MembersKeysOnce ms

end

theorem keys_substituteMembers {location : String} {ms : List (String × Param)}
    {js : List (String × Json)} (h : substituteMembers location ms = .ok js) :
    Dict.keys js = Dict.keys ms := by
  induction ms generalizing js with
  | nil =>
    cases h
    rfl
  | cons m ms ih =>
    obtain ⟨k, p⟩ := m
    rw [substituteMembers] at h
    obtain ⟨j, -, h⟩ := bind_eq_ok.mp h
    obtain ⟨js', hms, h⟩ := bind_eq_ok.mp h
    cases h
    exact congrArg (k :: ·) (ih hms)

mutual

/-- Substitution makes no key double. -/
theorem keysOnce_of_substitute {location : String} {j : Json} :
    (p : Param) → substitute location p = .ok j → p.KeysOnce → j.KeysOnce
  | .null, h, _ | .bool _, h, _ | .integer _, h, _ | .unsigned _, h, _ | .string _, h, _
  | .ref _, h, _ | .float (.finite _), h, _ => by
    cases h
    trivial
  | .float (.infinite _), h, _ | .float .nan, h, _ => by cases h
  | .array items, h, hkeys => by
    rw [substitute] at h
    obtain ⟨js, hjs, rfl⟩ := map_eq_ok.mp h
    exact keysOnce_of_substituteItems items hjs hkeys
  | .object members, h, hkeys => by
    rw [substitute] at h
    obtain ⟨js, hjs, rfl⟩ := map_eq_ok.mp h
    refine ⟨?_, keysOnce_of_substituteMembers members hjs hkeys.2⟩
    rw [keys_substituteMembers hjs]
    exact hkeys.1

theorem keysOnce_of_substituteItems {location : String} {index : Nat} {js : List Json} :
    (ps : List Param) → substituteItems location index ps = .ok js → ItemsKeysOnce ps →
      Json.ItemsKeysOnce js
  | [], h, _ => by
    cases h
    trivial
  | p :: ps, h, hkeys => by
    rw [substituteItems] at h
    obtain ⟨j, hj, h⟩ := bind_eq_ok.mp h
    obtain ⟨js, hjs, h⟩ := bind_eq_ok.mp h
    cases h
    exact ⟨keysOnce_of_substitute p hj hkeys.1, keysOnce_of_substituteItems ps hjs hkeys.2⟩

theorem keysOnce_of_substituteMembers {location : String} {js : List (String × Json)} :
    (ms : List (String × Param)) → substituteMembers location ms = .ok js → MembersKeysOnce ms →
      Json.MembersKeysOnce js
  | [], h, _ => by
    cases h
    trivial
  | (k, p) :: ms, h, hkeys => by
    rw [substituteMembers] at h
    obtain ⟨j, hj, h⟩ := bind_eq_ok.mp h
    obtain ⟨js, hjs, h⟩ := bind_eq_ok.mp h
    cases h
    exact ⟨keysOnce_of_substitute p hj hkeys.1, keysOnce_of_substituteMembers ms hjs hkeys.2⟩

end

theorem keysOnce_object {location : String} {ms : List (String × Param)}
    {js : List (String × Json)} (h : substituteMembers location ms = .ok js)
    (hkeys : (object ms).KeysOnce) : (Json.object js).KeysOnce := by
  refine ⟨?_, keysOnce_of_substituteMembers ms h hkeys.2⟩
  rw [keys_substituteMembers h]
  exact hkeys.1

end Param

/-- No mapping in the source has a key twice. -/
def Source.KeysOnce : Source → Prop
  | items values => Param.ItemsKeysOnce values
  | ref _ => True

/-- A source is a list or a template, and never `null`. -/
theorem Source.keysOnce_of_substitute {location : String} {source : Source} {j : Json}
    (h : source.substitute location = .ok j) (hkeys : source.KeysOnce) :
    j.KeysOnce ∧ j ≠ .null := by
  cases source with
  | ref r =>
    cases h
    exact ⟨trivial, nofun⟩
  | items values =>
    obtain ⟨js, hjs, rfl⟩ := map_eq_ok.mp h
    exact ⟨Param.keysOnce_of_substituteItems values hjs hkeys, nofun⟩

theorem Condition.keysOnce_toJson (c : Condition) : c.toJson.KeysOnce := by
  cases c <;> trivial

namespace Chain

/-- No mapping in the chain has a key twice. Members are kept as lists; they make up a mapping only
if this holds. -/
structure KeysOnce (c : Chain) : Prop where
  names : ∀ schemas, c.params = some schemas → (Dict.keys schemas).Nodup
  schemas : ∀ schemas, c.params = some schemas → ∀ m ∈ schemas, m.2.KeysOnce
  params : ∀ s ∈ c.steps, (Param.object s.params).KeysOnce
  sources : ∀ s ∈ c.steps, ∀ source, s.source = some source → source.KeysOnce
  output : ∀ members, c.output = some (.mapping members) → (Param.object members).KeysOnce

variable {c : Chain} {g : Graph}

/-- A compiled step is determined by its text. -/
theorem restorable_of_compilesTo {s : Step} {location : String} {t : Graph.Step}
    (h : s.CompilesTo location t) (hparams : (Param.object s.params).KeysOnce)
    (hsource : ∀ source, s.source = some source → source.KeysOnce) : t.Restorable where
  params := Param.keysOnce_object h.params hparams
  condition := by
    intro j hj
    rw [h.condition] at hj
    obtain ⟨condition, -, rfl⟩ := Option.map_eq_some_iff.mp hj
    exact condition.keysOnce_toJson
  source := by
    intro j hj
    have hwire := h.source
    rw [hj, Option.map_some] at hwire
    obtain ⟨source, hs, hok⟩ := Option.map_eq_some_iff.mp hwire
    exact Source.keysOnce_of_substitute hok (hsource source hs)

theorem keysOnce_of_compileOutput {j : Json} (h : c.compileOutput = .ok j)
    (hkeys : c.KeysOnce) : j.KeysOnce := by
  unfold compileOutput at h
  split at h
  · rename_i members houtput
    obtain ⟨js, hjs, rfl⟩ := map_eq_ok.mp h
    exact Param.keysOnce_object hjs (hkeys.output members houtput)
  · cases h
    trivial
  · cases h
    trivial
  · split at h <;> cases h <;> trivial

/-- What a chain compiles to is determined by its text, if the schemas of its parameters are. -/
theorem restorable_of_compile (h : c.compile = .ok g) (hkeys : c.KeysOnce)
    (hschemas : ∀ schemas, c.params = some schemas → ∀ m ∈ schemas, m.2.Unambiguous) :
    g.Restorable := by
  obtain ⟨steps, output, hsteps, houtput, rfl⟩ := compile_eq_ok h
  refine ⟨?_, ?_, ?_, keysOnce_of_compileOutput houtput hkeys⟩
  · show (Dict.keys (c.params.getD [])).Nodup
    cases hp : c.params with
    | none => exact List.nodup_nil
    | some schemas => exact hkeys.names schemas hp
  · show ∀ m ∈ c.params.getD [], m.2.KeysOnce ∧ m.2.Unambiguous
    cases hp : c.params with
    | none => exact nofun
    | some schemas =>
      exact fun m hm => ⟨hkeys.schemas schemas hp m hm, hschemas schemas hp m hm⟩
  · intro t ht
    obtain ⟨s, hs, location, hcompiles⟩ := exists_of_mem_compileSteps hsteps ht
    exact restorable_of_compilesTo hcompiles (hkeys.params s hs) (hkeys.sources s hs)

/-- The text of a compiled chain is read back, without blanks and over several lines. Its mappings
are mappings (`KeysOnce`). The schemas must not have `null` as a default value or give a further
keyword the name of one that has a place of its own; the text may nest 127 containers; a float must
be the one that its digits are read as. -/
theorem ofText?_of_compile (h : c.compile = .ok g) (hkeys : c.KeysOnce)
    (hschemas : ∀ schemas, c.params = some schemas → ∀ m ∈ schemas, m.2.Unambiguous)
    (hdepth : g.toJson.depth ≤ 127) (hfloats : ∀ x ∈ g.toJson.floats, x.ReadsBack) :
    Graph.ofText? g.compact = .ok g ∧ Graph.ofText? g.indented = .ok g :=
  Graph.ofText?_of_restorable (restorable_of_compile h hkeys hschemas) ⟨hdepth, hfloats⟩

open Finite64 (half half_readsBack)

/-- A schema with a default value, metadata, items and a further keyword. -/
def sampledSchema : Schema where
  kind := some "number"
  default := some (.number (.float half))
  items := some { allowed := some [.null, .bool true] }
  metadata := some { min := some half }
  extra := [("x-unit", .string "µ")]

/-- A chain with the condition `null`, a literal source, integers at both ends and a float. -/
def sampled : Chain where
  title := "\"Sampled\"\n"
  params := some [("rate", sampledSchema)]
  steps := [
    ⟨"fetch", "http", [("limit", .unsigned 0xFFFFFFFFFFFFFFFF), ("body", .object [("a", .null)])],
      some .null, none⟩,
    ⟨"each", "map", [("value", .ref .foreachItem)], none,
      some (.items [.integer (-0x8000000000000000), .array []])⟩]
  output := some (.mapping [("rates", .ref (.stepResults "each"))])

/-- What `sampled` compiles to. -/
def sampledGraph : Graph where
  studioId := "LOCAL_DEV_CHAIN"
  title := "\"Sampled\"\n"
  description := ""
  parameters := [("rate", sampledSchema)]
  steps := [
    ⟨"fetch", "http", [("limit", .number (.integer 0xFFFFFFFFFFFFFFFF)),
      ("body", .object [("a", .null)])], some .null, none⟩,
    ⟨"each", "map", [("value", .string "\x7b\x7bforeach.item\x7d\x7d")], none,
      some (.array [.number (.integer (-0x8000000000000000)), .array []])⟩]
  output := .object [("rates", .string "\x7b\x7bsteps.each.results\x7d\x7d")]
  publiclyTriggerable := false
  isPublic := false

theorem sampled_keysOnce : sampled.KeysOnce where
  names := by
    rintro _ ⟨⟩
    decide
  schemas := by
    rintro _ ⟨⟩
    simp [sampledSchema, Schema.KeysOnce, Json.KeysOnce, Json.ItemsKeysOnce,
      Json.MembersKeysOnce, Dict.keys]
  params := by
    simp [sampled, Param.KeysOnce, Param.MembersKeysOnce, Dict.keys]
  sources := by
    simp [sampled, Source.KeysOnce, Param.KeysOnce, Param.ItemsKeysOnce]
  output := by
    rintro _ ⟨⟩
    simp [Param.KeysOnce, Param.MembersKeysOnce, Dict.keys]

theorem ofText?_of_compile_sampled : sampled.compile = .ok sampledGraph ∧
    Graph.ofText? sampledGraph.compact = .ok sampledGraph ∧
    Graph.ofText? sampledGraph.indented = .ok sampledGraph := by
  have hcompile : sampled.compile = .ok sampledGraph := by rfl
  have hfloats : sampledGraph.toJson.floats = [half, half] := by rfl
  refine ⟨hcompile, ofText?_of_compile hcompile sampled_keysOnce ?_ (by decide) ?_⟩
  · rintro _ ⟨⟩
    simp [sampledSchema, Schema.Unambiguous, Schema.placed, Dict.keys]
  · rw [hfloats]
    simp [half_readsBack]

end Chain
end StepGraph
