import Conform.Proofs.Compiled
import Conform.Proofs.Overlays
import Conform.Registry.Builder
import Conform.Validate

/-!
# Registries that hold more

A registry that holds all that another holds compiles every spec that the other compiles, and in the same way, if the
factories of the other make no more of a wider context (`Registry.Extends.compile`). The built-in factories are of this
kind. A registry that is made of the built-in one under names that are not built in holds all that is built in, however
many names come and go (`extends_updateAll`, `extends_build`).
-/

namespace Conform

/-! ### Compilations that go the same way -/

/-- Where the second compilation ends with a result, the first is the same. -/
def Compilation.Upholds {α : Type} (wide narrow : Compilation α) : Prop :=
  ∀ a, narrow.result = .ok a → wide = narrow

namespace Compilation

variable {α β : Type}

theorem Upholds.refl (m : Compilation α) : m.Upholds m := fun _ _ => rfl

theorem upholds_fail (m : Compilation α) (e : SpecError) : m.Upholds (fail e) := nofun

theorem Upholds.bind {wide narrow : Compilation α} {next other : α → Compilation β} (first : wide.Upholds narrow)
    (second : ∀ a, (next a).Upholds (other a)) : (wide.bind next).Upholds (narrow.bind other) := by
  intro b done
  obtain ⟨a, made, rest⟩ := result_bind_eq_ok_iff.mp done
  rw [first a made]
  unfold Compilation.bind
  rw [made]
  simp only [second a b rest]

end Compilation

/-! ### Wider registries -/

/-- Whatever a registry finds under a name, the wider one finds there too. -/
structure Registry.Extends (wide narrow : Registry) : Prop where
  validators : ∀ name factory, narrow.factory? name = some factory → wide.factory? name = some factory
  types : ∀ name check, narrow.type? name = some check → wide.type? name = some check

structure Factory.Context.Extends {argument : Value} (wide narrow : Factory.Context argument) : Prop where
  types : ∀ name check, narrow.types.get? name = some check → wide.types.get? name = some check
  compile : ∀ s h, (wide.compile s h).Upholds (narrow.compile s h)

/-- A factory that makes a check with what it is lent makes the same one when it is lent more. -/
def Factory.Conservative (factory : Factory) : Prop :=
  ∀ (argument : Value) (wide narrow : Factory.Context argument), wide.Extends narrow →
    (factory argument wide).Upholds (factory argument narrow)

namespace Registry

theorem Extends.refl (r : Registry) : r.Extends r := ⟨fun _ _ found => found, fun _ _ found => found⟩

theorem Extends.resolve {wide narrow : Registry} (wider : wide.Extends narrow)
    (conservative : ∀ name factory, narrow.factory? name = some factory → factory.Conservative) {bound : Nat}
    (lent : ∀ argument : Value, argument.depth ≤ bound → (wide.context argument).Extends (narrow.context argument)) :
    ∀ (entries : List (String × Value)) (h : Value.depthFields entries ≤ bound),
      (resolve wide.validators (fun argument _ => wide.context argument) entries h).Upholds
        (resolve narrow.validators (fun argument _ => narrow.context argument) entries h)
  | [], _ => .refl _
  | (name, argument) :: entries, h => by
    have bounds := h
    simp only [Value.depthFields] at bounds
    simp only [Registry.resolve]
    cases found : narrow.validators.get? name with
    | none => exact Compilation.upholds_fail _ _
    | some factory =>
      rw [show wide.validators.get? name = some factory from wider.validators name factory found]
      apply Compilation.Upholds.bind
      · exact conservative name factory found argument _ _ (lent argument (by omega))
      · intro check
        apply Compilation.Upholds.bind
        · exact Extends.resolve wider conservative lent entries _
        · exact fun steps => .refl _

/-- What a registry compiles, a wider one compiles to the same check, and with the same events. Factories go back to the
registry for nested specs, so the induction is on the depth of the spec. -/
theorem Extends.compile {wide narrow : Registry} (wider : wide.Extends narrow)
    (conservative : ∀ name factory, narrow.factory? name = some factory → factory.Conservative) (s : Spec) :
    (wide.compile s).Upholds (narrow.compile s) := by
  rw [compile_eq, compile_eq]
  apply Compilation.Upholds.bind
  · apply wider.resolve conservative
    intro argument lower
    refine ⟨wider.types, fun t nested => ?_⟩
    exact Extends.compile wider conservative t
  · exact fun steps => .refl _
termination_by s.depth
decreasing_by simp only [Spec.depth] at *; omega

/-! ### The built-in factories -/

theorem conservative_typeFactory : typeFactory.Conservative := by
  intro argument wide narrow wider
  unfold typeFactory
  cases argument.string? with
  | none => exact .refl _
  | some name =>
    dsimp only
    cases found : narrow.types.get? name with
    | none => exact Compilation.upholds_fail _ _
    | some check =>
      rw [wider.types name check found]
      exact .refl _

theorem upholds_schemaFields {argument : Value} {wide narrow : Factory.Context argument} (wider : wide.Extends narrow) :
    ∀ (entries : List (String × Value)) (h : Value.depthFields entries ≤ argument.depth),
      (schemaFields wide entries h).Upholds (schemaFields narrow entries h)
  | [], _ => .refl _
  | (name, v) :: entries, h => by
    simp only [schemaFields]
    split
    · exact .refl _
    · apply Compilation.Upholds.bind
      · exact wider.compile _ _
      · intro check
        apply Compilation.Upholds.bind
        · exact upholds_schemaFields wider entries _
        · exact fun fields => .refl _

theorem conservative_schemaFactory : schemaFactory.Conservative := by
  intro argument wide narrow wider
  cases argument with
  | object entries =>
    apply Compilation.Upholds.bind
    · exact upholds_schemaFields wider entries _
    · exact fun fields => .refl _
  | _ => exact .refl _

theorem conservative_builtin {name : String} {factory : Factory} (found : builtin.factory? name = some factory) :
    factory.Conservative := by
  rcases factory?_builtin found with ⟨_, rfl⟩ | ⟨_, rfl⟩ | ⟨_, rfl⟩
  · exact conservative_typeFactory
  · exact conservative_schemaFactory
  · exact fun argument wide narrow _ => .refl _

/-! ### Names that are not built in -/

/-- A change of a registry. -/
inductive Update where
  | add (registration : Registration)
  | unregister (name : String)
  | unregisterType (name : String)

def update (r : Registry) : Update → Registry
  | .add registration => r.add registration
  | .unregister name => r.unregister name
  | .unregisterType name => r.unregisterType name

def updateAll (r : Registry) (updates : List Update) : Registry := updates.foldl update r

def SparesValidators (name : String) : Prop := name ∉ ["type", "schema", "required"]

def SparesTypes (name : String) : Prop := name ∉ ["string", "number", "date", "object", "array", "boolean"]

/-- Nothing is registered under a name that is built in. -/
def Registration.SparesBuiltins : Registration → Prop
  | validator name _ => SparesValidators name
  | type name _ => SparesTypes name

def Update.SparesBuiltins : Update → Prop
  | add registration => registration.SparesBuiltins
  | unregister name => SparesValidators name
  | unregisterType name => SparesTypes name

theorem ne_of_sparesValidators {name other : String} {factory : Factory} (spares : SparesValidators name)
    (found : builtin.factory? other = some factory) : other ≠ name := by
  rintro rfl
  rcases factory?_builtin found with ⟨rfl, _⟩ | ⟨rfl, _⟩ | ⟨rfl, _⟩ <;> exact spares (by decide)

theorem ne_of_sparesTypes {name other : String} {check : Check} (spares : SparesTypes name)
    (found : builtin.type? other = some check) : other ≠ name := by
  rintro rfl
  obtain ⟨type, rfl, _⟩ := type?_builtin found
  exact spares (by cases type <;> decide)

theorem factory?_add (r : Registry) {registration : Registration} (spares : registration.SparesBuiltins) {name : String}
    {factory : Factory} (found : builtin.factory? name = some factory) :
    (r.add registration).factory? name = r.factory? name := by
  cases registration with
  | validator other made => exact Table.get?_insert_other _ _ (ne_of_sparesValidators spares found)
  | type other made => rfl

theorem type?_add (r : Registry) {registration : Registration} (spares : registration.SparesBuiltins) {name : String}
    {check : Check} (found : builtin.type? name = some check) : (r.add registration).type? name = r.type? name := by
  cases registration with
  | validator other made => rfl
  | type other made => exact Table.get?_insert_other _ _ (ne_of_sparesTypes spares found)

theorem factory?_update (r : Registry) {u : Update} (spares : u.SparesBuiltins) {name : String} {factory : Factory}
    (found : builtin.factory? name = some factory) : (r.update u).factory? name = r.factory? name := by
  cases u with
  | add registration => exact factory?_add r spares found
  | unregister other => exact Table.get?_erase_other _ (ne_of_sparesValidators spares found)
  | unregisterType other => rfl

theorem type?_update (r : Registry) {u : Update} (spares : u.SparesBuiltins) {name : String} {check : Check}
    (found : builtin.type? name = some check) : (r.update u).type? name = r.type? name := by
  cases u with
  | add registration => exact type?_add r spares found
  | unregister other => rfl
  | unregisterType other => exact Table.get?_erase_other _ (ne_of_sparesTypes spares found)

theorem extends_update {r : Registry} (wider : r.Extends builtin) {u : Update} (spares : u.SparesBuiltins) :
    (r.update u).Extends builtin where
  validators := fun name factory found => (factory?_update r spares found).trans (wider.validators name factory found)
  types := fun name check found => (type?_update r spares found).trans (wider.types name check found)

theorem extends_updateAll {r : Registry} (wider : r.Extends builtin) {updates : List Update}
    (spares : ∀ u ∈ updates, u.SparesBuiltins) : (r.updateAll updates).Extends builtin := by
  induction updates generalizing r with
  | nil => exact wider
  | cons u updates ih =>
    rw [List.forall_mem_cons] at spares
    exact ih (extends_update wider spares.1) spares.2

/-! ### Builders -/

/-- A call of a builder. -/
inductive Builder.Call where
  | withBuiltins (wanted : Bool)
  | add (registration : Registration)

namespace Builder

def call (b : Builder) : Call → Builder
  | .withBuiltins wanted => b.withBuiltins wanted
  | .add registration => b.add registration

def callAll (b : Builder) (calls : List Call) : Builder := calls.foldl call b

def Call.SparesBuiltins : Call → Prop
  | withBuiltins _ => True
  | add registration => registration.SparesBuiltins

/-- A builder has gathered nothing under a name that is built in. -/
structure Spares (b : Builder) : Prop where
  validators : ∀ name factory, builtin.factory? name = some factory → b.custom.factory? name = none
  types : ∀ name check, builtin.type? name = some check → b.custom.type? name = none

theorem Spares.call {b : Builder} (gathered : b.Spares) {c : Call} (spares : c.SparesBuiltins) :
    (b.call c).Spares := by
  cases c with
  | withBuiltins wanted => exact ⟨gathered.validators, gathered.types⟩
  | add registration =>
    constructor
    · intro name factory found
      exact (factory?_add b.custom spares found).trans (gathered.validators name factory found)
    · intro name check found
      exact (type?_add b.custom spares found).trans (gathered.types name check found)

theorem Spares.callAll {b : Builder} (gathered : b.Spares) {calls : List Call}
    (spares : ∀ c ∈ calls, c.SparesBuiltins) : (b.callAll calls).Spares := by
  induction calls generalizing b with
  | nil => exact gathered
  | cons c calls ih =>
    rw [List.forall_mem_cons] at spares
    exact ih (gathered.call spares.1) spares.2

theorem extends_build {b : Builder} (gathered : b.Spares) (included : b.includesBuiltins) :
    b.build.Extends builtin := by
  rw [build, if_pos included]
  constructor
  · intro name factory found
    have absent := Table.get?_eq_none_iff.mp (gathered.validators name factory found)
    exact (Table.get?_insertAll_of_not_mem _ absent).trans found
  · intro name check found
    have absent := Table.get?_eq_none_iff.mp (gathered.types name check found)
    exact (Table.get?_insertAll_of_not_mem _ absent).trans found

end Builder

end Registry

/-! ### Conservative extensions -/

namespace Validate

/-- What the built-in registry compiles, another registry compiles too, to a check that answers the same. -/
structure Conservative (r : Registry) : Prop where
  spec : ∀ s check, (Registry.builtin.compile s).result = .ok check →
    ∃ other, (r.compile s).result = .ok other ∧ ∀ v, ok other v = ok check v ∧ all other v = all check v
  data : ∀ spec check, (Registry.builtin.compileValue spec).result = .ok check →
    ∃ other, (r.compileValue spec).result = .ok other ∧ ∀ v, ok other v = ok check v ∧ all other v = all check v

theorem conservative_of_extends {r : Registry} (wider : r.Extends Registry.builtin) : Conservative r := by
  have same := wider.compile fun _ _ => Registry.conservative_builtin
  constructor
  · intro s check compiled
    refine ⟨check, ?_, fun v => ⟨rfl, rfl⟩⟩
    rw [same s check compiled]
    exact compiled
  · intro spec check compiled
    obtain ⟨s, read, compiledSpec⟩ := Registry.compileValue_ok_iff.mp compiled
    refine ⟨check, Registry.compileValue_ok_iff.mpr ⟨s, read, ?_⟩, fun v => ⟨rfl, rfl⟩⟩
    rw [same s check compiledSpec]
    exact compiledSpec

/-- Registering and unregistering under names that are not built in, in any order and number, changes nothing for specs
that need only what is built in, and neither does a builder that includes it. -/
theorem extension_conservative :
    (∀ updates : List Registry.Update, (∀ u ∈ updates, u.SparesBuiltins) →
      Conservative (Registry.builtin.updateAll updates)) ∧
    (∀ calls : List Registry.Builder.Call, (∀ c ∈ calls, c.SparesBuiltins) →
      (Registry.Builder.start.callAll calls).includesBuiltins →
      Conservative (Registry.Builder.start.callAll calls).build) := by
  constructor
  · intro updates spares
    exact conservative_of_extends (Registry.extends_updateAll (.refl _) spares)
  · intro calls spares included
    have gathered : Registry.Builder.start.Spares := ⟨fun _ _ _ => rfl, fun _ _ _ => rfl⟩
    exact conservative_of_extends (Registry.Builder.extends_build (gathered.callAll spares) included)

/-- A desk where a stamp may be asked for, and colours are known for a while. -/
def stampFactory : Factory := fun _ context => do
  let inner ← context.compileValue .null (Nat.zero_le _)
  .done inner

def deskUpdates : List Registry.Update := [
  .add (.validator "stamp" stampFactory), .add (.type "colour" Check.identity), .unregister "ink",
  .add (.validator "stamp" Registry.requiredFactory), .unregisterType "colour"]

def deskCalls : List Registry.Builder.Call := [
  .add (.validator "stamp" stampFactory), .withBuiltins false, .add (.type "colour" Check.identity), .withBuiltins true]

/-- A letter to a town. -/
def deskSpec : Value := .object [("schema", .object [
  ("to", .object [("required", .bool true), ("schema", .object [
    ("town", .object [("type", .string "string"), ("required", .bool true)]),
    ("code", .object [("type", .string "number")])])])])]

def deskInput : Value := .object [("to", .object [("code", .string "none")])]

theorem desk_conserved : (∀ u ∈ deskUpdates, u.SparesBuiltins) ∧ (∀ c ∈ deskCalls, c.SparesBuiltins) ∧
    (Registry.Builder.start.callAll deskCalls).includesBuiltins ∧
    (∃ other, ((Registry.builtin.updateAll deskUpdates).compileValue deskSpec).result = .ok other ∧
      all other deskInput = .error ⟨[⟨"required, but not given", ".to.town", []⟩, ⟨"Not a number", ".to.code", []⟩]⟩) ∧
    ∃ other, ((Registry.Builder.start.callAll deskCalls).build.compileValue deskSpec).result = .ok other ∧
      ok other deskInput = .error ⟨"required, but not given", ".to.town", []⟩ := by
  have updates : ∀ u ∈ deskUpdates, u.SparesBuiltins := by
    simp [deskUpdates, Registry.Update.SparesBuiltins, Registry.Registration.SparesBuiltins,
      Registry.SparesValidators, Registry.SparesTypes]
  have calls : ∀ c ∈ deskCalls, c.SparesBuiltins := by
    simp [deskCalls, Registry.Builder.Call.SparesBuiltins, Registry.Registration.SparesBuiltins,
      Registry.SparesValidators, Registry.SparesTypes]
  obtain ⟨updated, made, same⟩ := (extension_conservative.1 deskUpdates updates).data deskSpec _ rfl
  obtain ⟨built, madeToo, sameToo⟩ := (extension_conservative.2 deskCalls calls rfl).data deskSpec _ rfl
  exact ⟨updates, calls, rfl, ⟨updated, made, (same deskInput).2.trans rfl⟩,
    built, madeToo, (sameToo deskInput).1.trans rfl⟩

end Validate

end Conform
