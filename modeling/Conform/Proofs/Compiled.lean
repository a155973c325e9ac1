import Conform.Registry.Builtin
import Mathlib.Data.List.Forall2

/-!
# Compiled checks

A compiled spec is a guarded chain with one step for each entry (`compile_ok_iff`). So a property that
chains hand on from their steps holds of every check that a registry compiles, as soon as the factories and
the types of the registry keep it (`Registry.Keeps.compile`). The built-in registry keeps every property that
chains, schemas, leaf types and the identity have (`Hereditary.keeps_builtin`).
-/

namespace Conform

open Activity

theorem forall₂_mem_right {α β : Type} {related : α → β → Prop} {xs : List α} {ys : List β}
    (all : List.Forall₂ related xs ys) {y : β} (member : y ∈ ys) : ∃ x ∈ xs, related x y := by
  induction all with
  | nil => cases member
  | cons first _ ih =>
    rcases List.mem_cons.mp member with rfl | later
    · exact ⟨_, List.mem_cons_self, first⟩
    · obtain ⟨x, present, held⟩ := ih later
      exact ⟨x, List.mem_cons_of_mem _ present, held⟩

theorem Schema.mem_ordered {f : Field} {fields : List Field} : f ∈ Schema.ordered fields ↔ f ∈ fields := by
  have kinds : f.kind.isRequired ∨ f.kind.hasDefault ∨ f.kind.isOptional := by cases f.kind <;> simp [
    FieldKind.isRequired, FieldKind.hasDefault, FieldKind.isOptional]
  simp only [Schema.ordered, List.mem_append, List.mem_filter]
  grind

/-! ### The steps of a spec -/

namespace Registry

/-- A step is what the factory under the name of an entry makes of its argument. -/
def Makes (r : Registry) (e : String × Value) (step : Check.Step) : Prop :=
  ∃ factory, r.factory? e.1 = some factory ∧ step.name = e.1 ∧
    (factory e.2 (r.context e.2)).result = .ok step.check

theorem resolve_ok_iff {r : Registry} {bound : Nat} : ∀ {entries : List (String × Value)}
    (h : Value.depthFields entries ≤ bound) {steps : List Check.Step},
    (resolve r.validators (fun argument _ => r.context argument) entries h).result = .ok steps ↔
      List.Forall₂ r.Makes entries steps
  | [], _, steps => by
    rw [List.forall₂_nil_left_iff]
    simp only [resolve, Compilation.done, Except.ok.injEq]
    exact eq_comm
  | (name, argument) :: entries, h, steps => by
    rw [List.forall₂_cons_left_iff]
    simp only [resolve]
    split
    · rename_i absent
      constructor
      · intro failed; cases failed
      · rintro ⟨step, rest, ⟨factory, found, _⟩, _⟩
        rw [factory?, absent] at found
        cases found
    · rename_i factory present
      simp only [Compilation.bind_eq, Compilation.result_bind_eq_ok_iff, resolve_ok_iff, Compilation.done,
        Except.ok.injEq]
      constructor
      · rintro ⟨check, made, rest, others, rfl⟩
        exact ⟨⟨name, check⟩, rest, ⟨factory, present, rfl, made⟩, others, rfl⟩
      · rintro ⟨⟨stepName, check⟩, rest, ⟨other, found, named, made⟩, others, rfl⟩
        rw [factory?, present] at found
        cases found
        exact ⟨check, made, rest, others, by rw [show stepName = name from named]⟩

theorem compile_ok_iff {r : Registry} {s : Spec} {check : Check} :
    (r.compile s).result = .ok check ↔
      ∃ steps, List.Forall₂ r.Makes s.entries steps ∧
        check = Check.guarded s.nullable s.default (Check.chain steps) := by
  rw [compile_eq, Compilation.result_bind_eq_ok_iff]
  simp only [resolve_ok_iff, assemble, Compilation.bind_eq, Compilation.bind, Compilation.note,
    Compilation.done, Except.ok.injEq]
  exact exists_congr fun steps => and_congr_right fun _ => eq_comm

theorem compileValue_ok_iff {r : Registry} {v : Value} {check : Check} :
    (r.compileValue v).result = .ok check ↔
      ∃ s, Spec.ofValue v = .ok s ∧ (r.compile s).result = .ok check := by
  unfold compileValue
  split <;> rename_i read
  · simp [read, Compilation.fail]
  · simp [read]

end Registry

/-! ### Properties that registries keep -/

/-- If the checks that a factory is lent have a property, then so do the checks that it makes. -/
def Factory.Keeps (P : Check → Prop) (factory : Factory) : Prop :=
  ∀ (argument : Value) (context : Factory.Context argument),
    (∀ name check, context.types.get? name = some check → P check) →
    (∀ s h check, (context.compile s h).result = .ok check → P check) →
    ∀ check, (factory argument context).result = .ok check → P check

/-- The types of a registry have a property, and its factories keep it. -/
structure Registry.Keeps (P : Check → Prop) (r : Registry) : Prop where
  validators : ∀ name factory, r.factory? name = some factory → factory.Keeps P
  types : ∀ name check, r.type? name = some check → P check

theorem Registry.Keeps.register {P : Check → Prop} {r : Registry} (keeps : r.Keeps P) {name : String}
    {factory : Factory} (kept : factory.Keeps P) : (r.register name factory).Keeps P where
  validators := by
    intro other found present
    by_cases same : other = name
    · subst same
      cases (Table.get?_insert_same _ _ _).symm.trans present
      exact kept
    · exact keeps.validators other found ((Table.get?_insert_other _ _ same).symm.trans present)
  types := keeps.types

theorem Registry.Keeps.makes {P : Check → Prop} {r : Registry} (keeps : r.Keeps P) {e : String × Value}
    {step : Check.Step} (made : r.Makes e step)
    (nested : ∀ s : Spec, s.depth ≤ e.2.depth → ∀ check, (r.compile s).result = .ok check → P check) :
    P step.check := by
  obtain ⟨factory, found, _, result⟩ := made
  exact keeps.validators e.1 factory found e.2 (r.context e.2) keeps.types nested step.check result

/-- Nested specs lie less deep, so the induction is on the depth of the spec. -/
theorem Registry.Keeps.compile {P : Check → Prop} {r : Registry} (keeps : r.Keeps P)
    (chained : ∀ nullable default steps, (∀ step ∈ steps, P (Check.Step.check step)) →
      P (Check.guarded nullable default (Check.chain steps)))
    (s : Spec) {check : Check} (compiled : (r.compile s).result = .ok check) : P check := by
  obtain ⟨steps, made, rfl⟩ := Registry.compile_ok_iff.mp compiled
  apply chained
  intro step member
  obtain ⟨⟨name, argument⟩, entry, makes⟩ := forall₂_mem_right made member
  have lower := Spec.depth_argument_lt entry
  refine keeps.makes makes ?_
  intro t nested inner compiledInner
  exact Registry.Keeps.compile keeps chained t compiledInner
termination_by s.depth
decreasing_by simp only at nested; omega

theorem Registry.Keeps.compileValue {P : Check → Prop} {r : Registry} (keeps : r.Keeps P)
    (chained : ∀ nullable default steps, (∀ step ∈ steps, P (Check.Step.check step)) →
      P (Check.guarded nullable default (Check.chain steps)))
    {v : Value} {check : Check} (compiled : (r.compileValue v).result = .ok check) : P check := by
  obtain ⟨s, _, compiled⟩ := Registry.compileValue_ok_iff.mp compiled
  exact keeps.compile chained s compiled

/-! ### The built-in registry -/

/-- A field is declared by an entry of a schema, its check compiled with what a factory is lent. -/
def Factory.Context.Declares {argument : Value} (context : Factory.Context argument) (e : String × Value)
    (f : Field) : Prop :=
  ∃ s lower check, Spec.ofValue e.2 = .ok s ∧ (context.compile s lower).result = .ok check ∧
    f = Field.ofSpec e.1 s check

namespace Registry

theorem validators_builtin : builtin.validators =
    [("type", typeFactory), ("schema", schemaFactory), ("required", requiredFactory)] := rfl

theorem types_builtin : builtin.types = LeafType.all.map fun type => (type.name, type.check) := rfl

theorem factory?_builtin {name : String} {factory : Factory} (found : builtin.factory? name = some factory) :
    (name = "type" ∧ factory = typeFactory) ∨ (name = "schema" ∧ factory = schemaFactory) ∨
      (name = "required" ∧ factory = requiredFactory) := by
  rw [factory?, validators_builtin] at found
  simp only [Table.get?_cons, Table.get?_nil] at found
  grind

theorem type?_builtin {name : String} {check : Check} (found : builtin.type? name = some check) :
    ∃ type : LeafType, name = type.name ∧ check = type.check := by
  have member : (name, check) ∈ builtin.types := Table.mem_of_get? found
  rw [types_builtin, List.mem_map] at member
  obtain ⟨type, _, same⟩ := member
  cases same
  exact ⟨type, rfl, rfl⟩

theorem schemaFields_ok {argument : Value} {context : Factory.Context argument} :
    ∀ {entries : List (String × Value)} (h : Value.depthFields entries ≤ argument.depth) {fields : List Field},
      (schemaFields context entries h).result = .ok fields →
      List.Forall₂ context.Declares entries fields
  | [], _, fields, compiled => by
    cases compiled
    exact .nil
  | (name, v) :: entries, h, fields, compiled => by
    simp only [schemaFields] at compiled
    split at compiled
    · cases compiled
    · rename_i s read
      simp only [Compilation.bind_eq, Compilation.result_bind_eq_ok_iff, Compilation.done,
        Except.ok.injEq] at compiled
      obtain ⟨check, made, rest, others, rfl⟩ := compiled
      exact .cons ⟨s, _, check, read, made, rfl⟩ (schemaFields_ok _ others)

theorem schemaFactory_ok {argument : Value} {context : Factory.Context argument} {check : Check}
    (made : (schemaFactory argument context).result = .ok check) :
    ∃ entries fields, argument = .object entries ∧ List.Forall₂ context.Declares entries fields ∧
      check = Schema.check fields := by
  cases argument with
  | object entries =>
    simp only [schemaFactory, Compilation.bind_eq, Compilation.result_bind_eq_ok_iff, Compilation.note,
      Compilation.done, Except.ok.injEq] at made
    obtain ⟨fields, compiled, _, _, rfl⟩ := made
    exact ⟨entries, fields, rfl, schemaFields_ok _ compiled, rfl⟩
  | _ => cases made

theorem typeFactory_ok {argument : Value} {context : Factory.Context argument} {check : Check}
    (made : (typeFactory argument context).result = .ok check) :
    ∃ name, argument = .string name ∧ context.types.get? name = some check := by
  cases argument with
  | string name =>
    simp only [typeFactory, Value.string?] at made
    split at made
    · cases made
    · rename_i found
      cases made
      exact ⟨name, rfl, found⟩
  | _ => cases made

end Registry

/-- A property that leaf types and the identity have, and that chains and schemas hand on from their parts. -/
structure Check.Hereditary (P : Check → Prop) : Prop where
  leaf : ∀ type, P (LeafType.check type)
  identity : P Check.identity
  chain : ∀ nullable default steps, (∀ step ∈ steps, P (Check.Step.check step)) →
    P (Check.guarded nullable default (Check.chain steps))
  schema : ∀ fields, (∀ f ∈ fields, P (Field.check f)) → P (Schema.check fields)

namespace Check.Hereditary

variable {P : Check → Prop}

theorem keeps_schemaFactory (hereditary : Hereditary P) : Factory.Keeps P Registry.schemaFactory := by
  intro argument context _ lent check made
  obtain ⟨entries, fields, _, compiled, rfl⟩ := Registry.schemaFactory_ok made
  apply hereditary.schema
  intro f member
  obtain ⟨e, _, s, lower, inner, _, result, rfl⟩ := forall₂_mem_right compiled member
  exact lent s lower inner result

theorem keeps_typeFactory : Factory.Keeps P Registry.typeFactory := by
  intro argument context types _ check made
  obtain ⟨name, _, found⟩ := Registry.typeFactory_ok made
  exact types name check found

theorem keeps_requiredFactory (hereditary : Hereditary P) : Factory.Keeps P Registry.requiredFactory := by
  intro argument context _ _ check made
  cases made
  exact hereditary.identity

theorem keeps_builtin (hereditary : Hereditary P) : Registry.builtin.Keeps P where
  validators := by
    intro name factory found
    rcases Registry.factory?_builtin found with ⟨_, rfl⟩ | ⟨_, rfl⟩ | ⟨_, rfl⟩
    · exact keeps_typeFactory
    · exact hereditary.keeps_schemaFactory
    · exact hereditary.keeps_requiredFactory
  types := by
    intro name check found
    obtain ⟨type, _, rfl⟩ := Registry.type?_builtin found
    exact hereditary.leaf type

theorem compile_builtin (hereditary : Hereditary P) (s : Spec) {check : Check}
    (compiled : (Registry.builtin.compile s).result = .ok check) : P check :=
  hereditary.keeps_builtin.compile hereditary.chain s compiled

theorem makes_builtin (hereditary : Hereditary P) {e : String × Value} {step : Check.Step}
    (made : Registry.builtin.Makes e step) : P step.check :=
  hereditary.keeps_builtin.makes made fun s _ _ compiled => hereditary.compile_builtin s compiled

end Check.Hereditary

/-! ### Properties of activities -/

def Check.messages : List String :=
  Check.nullMessage :: Field.requiredMessage :: LeafType.all.map LeafType.message

/-- A property that sequencing hands on, and that ending, counting, noting what is only traced and recording one of the
built-in messages have. -/
structure Activity.Closed (P : (α : Type) → Activity α → Prop) : Prop where
  done : ∀ {α : Type} (a : α), P α (.done a)
  bind : ∀ {α β : Type} {m : Activity α} {k : α → Activity β},
    P α m → (∀ a, P β (k a)) → P β (m.bind k)
  count : P Nat (query .count)
  note : ∀ e : Event, e.level? = some .trace → P Unit (note e)
  record : ∀ e : ValidationError, e.message ∈ Check.messages → P Unit (record e)

namespace Activity.Closed

variable {P : (α : Type) → Activity α → Prop}

theorem refuse (closed : Closed P) {message : String} (known : message ∈ Check.messages) (path : String) :
    P Value (Check.refuse message path) :=
  closed.bind (closed.record _ known) fun _ => closed.done _

theorem leaf (closed : Closed P) (type : LeafType) (v : Value) (path : String) :
    P Value (type.check v path) := by
  unfold LeafType.check
  split
  · exact closed.done _
  · exact closed.refuse (by cases type <;> decide) path

theorem chain (closed : Closed P) {steps : List Check.Step}
    (inner : ∀ step ∈ steps, ∀ v path, P Value (step.check v path)) (v : Value) (path : String) :
    P Value (Check.chain steps v path) := by
  induction steps generalizing v with
  | nil => exact closed.done v
  | cons step steps ih =>
    refine closed.bind closed.count fun before => ?_
    refine closed.bind (inner step List.mem_cons_self v path) fun w => ?_
    refine closed.bind closed.count fun after => ?_
    split
    · exact closed.bind (closed.note _ rfl) fun _ => closed.done w
    · exact ih (fun other member => inner other (List.mem_cons_of_mem _ member)) w

theorem guarded (closed : Closed P) (nullable : Bool) (default : Option Value) {check : Check}
    (inner : ∀ v path, P Value (check v path)) (v : Value) (path : String) :
    P Value (Check.guarded nullable default check v path) := by
  unfold Check.guarded Check.onNull
  split
  · split
    · exact closed.done _
    · split
      · exact closed.done _
      · exact closed.refuse (by decide) path
  · exact inner v path

theorem visit (closed : Closed P) {f : Field} (inner : ∀ v path, P Value (f.check v path))
    (input : Table Value) (path : String) : P (Option Value) (f.visit input path) := by
  have known : Field.requiredMessage ∈ Check.messages := by decide
  unfold Field.visit
  split
  · exact closed.bind (inner _ _) fun _ => closed.done _
  · exact closed.bind (closed.record _ known) fun _ => closed.done _
  · exact closed.done _
  · exact closed.done _

theorem visitAll (closed : Closed P) {fields : List Field}
    (inner : ∀ f ∈ fields, ∀ v path, P Value (f.check v path)) (input : Table Value) (path : String) :
    P (List (String × Value)) (Schema.visitAll fields input path) := by
  induction fields with
  | nil => exact closed.done _
  | cons f fields ih =>
    refine closed.bind (closed.visit (inner f List.mem_cons_self) input path) fun value => ?_
    refine closed.bind (ih fun other member => inner other (List.mem_cons_of_mem _ member)) fun entries => ?_
    exact closed.done _

theorem schema (closed : Closed P) {fields : List Field}
    (inner : ∀ f ∈ fields, ∀ v path, P Value (f.check v path)) (v : Value) (path : String) :
    P Value (Schema.check fields v path) := by
  unfold Schema.check
  split
  · have ordered : ∀ f ∈ Schema.ordered fields, ∀ v path, P Value (f.check v path) :=
      fun f member => inner f (Schema.mem_ordered.mp member)
    refine closed.bind (closed.visitAll ordered _ path) fun entries => ?_
    refine closed.bind ?_ fun _ => closed.done _
    unfold Schema.noteDropped
    split
    · exact closed.done _
    · exact closed.note _ rfl
  · exact closed.refuse (by decide) path

theorem hereditary (closed : Closed P) : Check.Hereditary fun check => ∀ v path, P Value (check v path) where
  leaf := closed.leaf
  identity := fun v _ => closed.done v
  chain := fun nullable default _ inner => closed.guarded nullable default (closed.chain inner)
  schema := fun _ inner => closed.schema inner

end Activity.Closed

end Conform
