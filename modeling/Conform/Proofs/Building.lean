import Conform.Proofs.Extension

/-!
# Builders replay registrations

A builder gathers its registrations in tables of its own and merges these into the built-in ones. Gathering first makes no
difference (`Table.insertAll_ofList`), so what is built is what the same registrations make one by one of the built-in
registry, or of the empty one (`build_replays`).
-/

namespace Conform

namespace Registry

/-! ### Registrations one by one -/

def Registration.validator? : Registration → Option (String × Factory)
  | validator name factory => some (name, factory)
  | type _ _ => none

def Registration.type? : Registration → Option (String × Check)
  | validator _ _ => none
  | type name check => some (name, check)

theorem addAll_eq (r : Registry) (registrations : List Registration) : r.addAll registrations =
    ⟨r.validators.insertAll (registrations.filterMap Registration.validator?),
      r.types.insertAll (registrations.filterMap Registration.type?)⟩ := by
  induction registrations generalizing r with
  | nil => rfl
  | cons registration registrations ih =>
    have next : r.addAll (registration :: registrations) = (r.add registration).addAll registrations := rfl
    rw [next, ih]
    cases registration <;> rfl

/-- To register in an empty registry and put that on top of another is to register in the other. -/
theorem insertAll_addAll_empty (r : Registry) (registrations : List Registration) :
    (⟨r.validators.insertAll (empty.addAll registrations).validators,
      r.types.insertAll (empty.addAll registrations).types⟩ : Registry) = r.addAll registrations := by
  rw [addAll_eq, addAll_eq]
  congr 1
  · exact Table.insertAll_ofList r.validators (registrations.filterMap Registration.validator?)
  · exact Table.insertAll_ofList r.types (registrations.filterMap Registration.type?)

namespace Builder

def Call.registration? : Call → Option Registration
  | withBuiltins _ => none
  | add registration => some registration

def Call.wish? : Call → Option Bool
  | withBuiltins wanted => some wanted
  | add _ => none

/-- The last call about them tells whether built-ins are wanted. They are if there is none. -/
def wantsBuiltins (calls : List Call) : Bool := ((calls.filterMap Call.wish?).getLast?).getD true

theorem custom_callAll (b : Builder) (calls : List Call) :
    (b.callAll calls).custom = b.custom.addAll (calls.filterMap Call.registration?) := by
  induction calls generalizing b with
  | nil => rfl
  | cons c calls ih =>
    have next : b.callAll (c :: calls) = (b.call c).callAll calls := rfl
    rw [next, ih]
    cases c <;> rfl

theorem includesBuiltins_callAll (b : Builder) (calls : List Call) :
    (b.callAll calls).includesBuiltins = ((calls.filterMap Call.wish?).getLast?).getD b.includesBuiltins := by
  induction calls generalizing b with
  | nil => rfl
  | cons c calls ih =>
    have next : b.callAll (c :: calls) = (b.call c).callAll calls := rfl
    rw [next, ih]
    cases c with
    | withBuiltins wanted =>
      have first : (Call.withBuiltins wanted :: calls).filterMap Call.wish? = wanted :: calls.filterMap Call.wish? := rfl
      rw [first, List.getLast?_cons]
      rfl
    | add registration => rfl

/-- A registry shows registrations on top of a base. -/
structure Shows (r base : Registry) (registrations : List Registration) : Prop where
  validators : r.validators.Overlaid base.validators (registrations.filterMap Registration.validator?)
  types : r.types.Overlaid base.types (registrations.filterMap Registration.type?)

theorem shows_addAll (base : Registry) (registrations : List Registration) :
    Shows (base.addAll registrations) base registrations := by
  rw [addAll_eq]
  exact ⟨Table.overlaid_insertAll _ _, Table.overlaid_insertAll _ _⟩

/-- What a builder makes is what its registrations make one by one of the built-in registry, or of the empty one if that
is the last wish. A registration wins over what is built in and takes its place. Where the wishes stand among the
registrations does not matter. -/
theorem build_replays (calls : List Call) :
    let base := if wantsBuiltins calls then builtin else empty
    let registrations := calls.filterMap Call.registration?
    (start.callAll calls).build = base.addAll registrations ∧
    Shows (start.callAll calls).build base registrations ∧
    ∀ others : List Call, others.filterMap Call.registration? = registrations →
      wantsBuiltins others = wantsBuiltins calls → (start.callAll others).build = (start.callAll calls).build := by
  have replayed : ∀ calls : List Call, (start.callAll calls).build =
      (if wantsBuiltins calls then builtin else empty).addAll (calls.filterMap Call.registration?) := by
    intro calls
    have wanted : (start.callAll calls).includesBuiltins = wantsBuiltins calls := includesBuiltins_callAll start calls
    have made : (start.callAll calls).custom = empty.addAll (calls.filterMap Call.registration?) :=
      custom_callAll start calls
    rw [build, wanted, made]
    split
    · exact insertAll_addAll_empty builtin _
    · rfl
  refine ⟨replayed calls, ?_, ?_⟩
  · rw [replayed calls]
    exact shows_addAll _ _
  · intro others registered wished
    rw [replayed calls, replayed others, registered, wished]

/-- A shop that marks strings in its own way, and where ink is sold. -/
def shopRegistrations : List Registration := [
  .validator "schema" typeFactory, .type "string" Check.identity, .validator "ink" requiredFactory,
  .validator "schema" requiredFactory]

def shopCalls : List Call := .withBuiltins false :: shopRegistrations.map .add ++ [.withBuiltins true]

theorem shop_built :
    (shopRegistrations.map Call.add).filterMap Call.registration? = shopCalls.filterMap Call.registration? ∧
    wantsBuiltins (shopRegistrations.map .add) = wantsBuiltins shopCalls ∧
    (start.callAll (shopRegistrations.map .add)).build = (start.callAll shopCalls).build ∧
    (start.callAll shopCalls).build.validatorNames = ["type", "schema", "required", "ink"] ∧
    (start.callAll shopCalls).build.factory? "schema" = some requiredFactory := by
  obtain ⟨-, shows, indifferent⟩ := build_replays shopCalls
  exact ⟨rfl, rfl, indifferent _ rfl rfl, shows.validators.names, shows.validators.found "schema"⟩

end Builder

end Registry

end Conform
