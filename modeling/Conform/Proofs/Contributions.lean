import Conform.Proofs.Entries
import Conform.Proofs.Reading

/-!
# What each field contributes

A schema is a sum. Each field adds its part to the answer and its part to the errors, by its own spec and by the value
under its own name (`Declared.contribution`), and the parts stand in the order of the fields. `check_eq_passes` says
that nothing is gained or lost by working in passes, each of which takes keys out of what the passes before have left of
the input and writes to the answer that they have begun.
-/

namespace Conform

/-! ### Adding errors -/

namespace Activity

variable {α β : Type}

/-- Whatever was found before, a collecting run ends with the same result and adds the same errors. -/
def Adds (m : Activity α) (a : α) (added : List ValidationError) : Prop :=
  ∀ errors, m.settle .collectAll errors = (.done a, errors ++ added)

theorem adds_done (a : α) : (done a).Adds a [] := fun errors => by simp

theorem adds_note (e : Event) : (note e).Adds () [] := fun errors => by simp

theorem adds_record (e : ValidationError) : (record e).Adds () [e] := fun _ => rfl

theorem Adds.bind {m : Activity α} {k : α → Activity β} {a : α} {b : β} {added later : List ValidationError}
    (first : m.Adds a added) (second : (k a).Adds b later) : (m.bind k).Adds b (added ++ later) := by
  intro errors
  rw [settle_bind, first errors]
  dsimp only
  rw [second, List.append_assoc]

theorem Adds.bind_last {m : Activity α} {k : α → Activity β} {a : α} {b : β} {added : List ValidationError}
    (first : m.Adds a added) (second : (k a).Adds b []) : (m.bind k).Adds b added := by
  rw [← List.append_nil added]
  exact first.bind second

theorem Adds.run {m : Activity α} {a : α} {added : List ValidationError} (adds : m.Adds a added) (j : Journal) :
    (m.run .collectAll j).1 = .done a ∧ (m.run .collectAll j).2.errors = j.errors ++ added := by
  have settled := settle_eq .collectAll m j
  rw [adds, Prod.mk.injEq] at settled
  exact ⟨settled.1.symm, settled.2.symm⟩

end Activity

/-- If errors are collected, a check ends with a value and adds errors, and neither depends on errors before. -/
def Check.Additive (check : Check) : Prop := ∀ v path, ∃ w added, (check v path).Adds w added

theorem Check.Regular.additive {check : Check} (regular : check.Regular) : check.Additive :=
  fun v path => ⟨_, _, fun errors => (regular v path errors).collecting⟩

/-! ### One field -/

/-- A field by its spec, with the check that the spec compiles to. -/
structure Declared where
  name : String
  spec : Spec
  check : Check

/-- What a field adds to the answer and to the errors. -/
structure Contribution where
  entries : Table Value
  errors : List ValidationError

/-- An entry of a schema declares a field, its check compiled with what a factory is lent. -/
def Factory.Context.Gives {argument : Value} (context : Factory.Context argument) (e : String × Value) (d : Declared) :
    Prop :=
  d.name = e.1 ∧ Spec.ofValue e.2 = .ok d.spec ∧ ∃ lower, (context.compile d.spec lower).result = .ok d.check

theorem Field.given?_congr {f : Field} {a b : Table Value} (same : Table.get? a f.name = Table.get? b f.name) :
    f.given? a = f.given? b := by
  rw [given?, given?, same]

/-- A visit does not see more of a field and of the input than its name and kind and the value that is given. -/
theorem Field.visit_congr {f g : Field} {a b : Table Value} (name : f.name = g.name) (kind : f.kind = g.kind)
    (given : f.given? a = g.given? b) (check : ∀ v, f.given? a = some v → f.check v = g.check v) (path : String) :
    f.visit a path = g.visit b path := by
  unfold visit step
  rw [← given, kind, name]
  cases subject : f.given? a with
  | some v =>
    dsimp only
    rw [check v subject]
  | none => cases g.kind <;> rfl

namespace Declared

open Activity

def field (d : Declared) : Field := .ofSpec d.name d.spec d.check

/-- The value that the check runs on, if it runs: null counts as absent if the field is required or has a default. -/
def subject? (d : Declared) (value : Option Value) : Option Value :=
  if d.spec.isRequired || d.spec.default.isSome then value.bind Value.present? else value

/-- What the check adds at the path of its field, in a new log. -/
def checked (d : Declared) (path : String) (v : Value) : Contribution :=
  match (d.check v (path ++ "." ++ d.name)).settle .collectAll [] with
  | (.done w, errors) => ⟨[(d.name, w)], errors⟩
  | (.halted, errors) => ⟨[], errors⟩

/-- What a field adds, by the value under its name. -/
def contribution (d : Declared) (path : String) (value : Option Value) : Contribution :=
  match d.subject? value with
  | some v => d.checked path v
  | none =>
    if d.spec.isRequired then ⟨[], [⟨"required, but not given", path ++ "." ++ d.name, []⟩]⟩
    else match d.spec.default with
      | some v => ⟨[(d.name, v)], []⟩
      | none => ⟨[], []⟩

/-- The same field with another check. -/
def withCheck (d : Declared) (check : Check) : Declared := { d with check }

theorem checked_eq {d : Declared} {path : String} {v w : Value} {added : List ValidationError}
    (adds : (d.check v (path ++ "." ++ d.name)).Adds w added) : d.checked path v = ⟨[(d.name, w)], added⟩ := by
  rw [checked, adds]
  rfl

theorem given?_field (d : Declared) (input : Table Value) :
    d.field.given? input = d.subject? (Table.get? input d.name) := by
  unfold field Field.given? Field.ofSpec FieldKind.ofSpec subject?
  cases d.spec.isRequired <;> cases d.spec.default <;> rfl

theorem path_step (d : Declared) (path : String) : path ++ d.field.step = path ++ "." ++ d.name :=
  String.append_assoc.symm

theorem adds_visit {d : Declared} (additive : d.check.Additive) (input : Table Value) (path : String) :
    ∃ value, (d.field.visit input path).Adds value (d.contribution path (Table.get? input d.name)).errors ∧
      d.field.entry value = (d.contribution path (Table.get? input d.name)).entries := by
  unfold Field.visit contribution
  rw [given?_field, path_step]
  cases d.subject? (Table.get? input d.name) with
  | some v =>
    obtain ⟨w, added, adds⟩ := additive v (path ++ "." ++ d.name)
    refine ⟨some w, ?_, ?_⟩
    · dsimp only
      rw [checked_eq adds]
      exact adds.bind_last (adds_done _)
    · dsimp only
      rw [checked_eq adds]
      rfl
  | none =>
    have error : ((ValidationError.ofMessage Field.requiredMessage).withPath d.field.step).under path =
        ⟨"required, but not given", path ++ "." ++ d.name, []⟩ := by
      rw [← path_step]
      rfl
    dsimp only
    rw [error]
    unfold field Field.ofSpec FieldKind.ofSpec
    cases d.spec.isRequired with
    | true => exact ⟨none, (adds_record _).bind_last (adds_done _), rfl⟩
    | false =>
      cases d.spec.default with
      | some v => exact ⟨some v, adds_done _, rfl⟩
      | none => exact ⟨none, adds_done _, rfl⟩

theorem visit_withCheck {d : Declared} {check : Check} {input : Table Value}
    (same : (d.subject? (Table.get? input d.name)).isSome → check = d.check) (path : String) :
    (d.withCheck check).field.visit input path = d.field.visit input path := by
  have given : (d.withCheck check).field.given? input = d.field.given? input := by
    rw [given?_field, given?_field]
    rfl
  refine @Field.visit_congr (d.withCheck check).field d.field input input rfl rfl given (fun v found => ?_) path
  rw [given?_field] at found
  exact congrFun (same (Option.isSome_of_mem found)) v

/-! ### All fields -/

/-- Required fields, then those with a default, then the others, as declared within each group. -/
def inOrder (declared : List Declared) : List Declared :=
  declared.filter (·.spec.isRequired) ++
    declared.filter (fun d => !d.spec.isRequired && d.spec.default.isSome) ++
    declared.filter fun d => !d.spec.isRequired && d.spec.default.isNone

theorem ordered_map {g : Declared → Field} (kinds : ∀ d, (g d).kind = .ofSpec d.spec) (declared : List Declared) :
    Schema.ordered (declared.map g) = (inOrder declared).map g := by
  simp only [Schema.ordered, inOrder, List.filter_map, List.map_append, Function.comp_def, kinds,
    FieldKind.isRequired_ofSpec, FieldKind.hasDefault_ofSpec, FieldKind.isOptional_ofSpec]

theorem inOrder_perm (declared : List Declared) : (inOrder declared).Perm declared := by
  have rest : (declared.filter (fun d => !d.spec.isRequired && d.spec.default.isSome) ++
      declared.filter fun d => !d.spec.isRequired && d.spec.default.isNone).Perm
      (declared.filter fun d => !d.spec.isRequired) := by
    have split := List.filter_append_perm (·.spec.default.isSome) (declared.filter fun d => !d.spec.isRequired)
    simpa only [List.filter_filter, Bool.and_comm, Option.not_isSome] using split
  rw [inOrder, List.append_assoc]
  exact (rest.append_left _).trans (List.filter_append_perm (·.spec.isRequired) declared)

theorem adds_visitAll {declared : List Declared} (additive : ∀ d ∈ declared, d.check.Additive) (input : Table Value)
    (path : String) :
    (Schema.visitAll (declared.map field) input path).Adds
      (declared.flatMap fun d => (d.contribution path (Table.get? input d.name)).entries)
      (declared.flatMap fun d => (d.contribution path (Table.get? input d.name)).errors) := by
  induction declared with
  | nil => exact adds_done []
  | cons d declared ih =>
    obtain ⟨value, first, entry⟩ := adds_visit (additive d List.mem_cons_self) input path
    have rest := ih fun other member => additive other (List.mem_cons_of_mem _ member)
    rw [List.flatMap_cons, List.flatMap_cons, ← entry]
    exact first.bind (rest.bind_last (adds_done _))

theorem visitAll_withCheck {declared : List Declared} {swap : Declared → Check} {input : Table Value}
    (same : ∀ d ∈ declared, (d.subject? (Table.get? input d.name)).isSome → swap d = d.check) (path : String) :
    Schema.visitAll (declared.map fun d => (d.withCheck (swap d)).field) input path =
      Schema.visitAll (declared.map field) input path := by
  induction declared with
  | nil => rfl
  | cons d declared ih =>
    rw [List.map_cons, List.map_cons, Schema.visitAll, Schema.visitAll,
      visit_withCheck (same d List.mem_cons_self), ih fun other member => same other (List.mem_cons_of_mem _ member)]
    rfl

theorem adds_check {declared : List Declared} (additive : ∀ d ∈ declared, d.check.Additive) (input : Table Value)
    (path : String) :
    (Schema.check (declared.map field) (.object input) path).Adds
      (.object ((inOrder declared).flatMap fun d => (d.contribution path (Table.get? input d.name)).entries))
      ((inOrder declared).flatMap fun d => (d.contribution path (Table.get? input d.name)).errors) := by
  have visited := adds_visitAll (fun d member => additive d ((inOrder_perm declared).mem_iff.mp member)) input path
  rw [← ordered_map fun _ => rfl] at visited
  refine visited.bind_last ?_
  unfold Schema.noteDropped
  split
  · exact adds_done _
  · exact (adds_note _).bind_last (adds_done _)

theorem check_withCheck {declared : List Declared} {swap : Declared → Check} {input : Table Value}
    (same : ∀ d ∈ declared, (d.subject? (Table.get? input d.name)).isSome → swap d = d.check) (path : String) :
    Schema.check (declared.map fun d => (d.withCheck (swap d)).field) (.object input) path =
      Schema.check (declared.map field) (.object input) path := by
  have visited := visitAll_withCheck (fun d member => same d ((inOrder_perm declared).mem_iff.mp member)) path
  rw [← ordered_map fun _ => rfl, ← ordered_map fun _ => rfl] at visited
  have dropped : Schema.undeclared (declared.map fun d => (d.withCheck (swap d)).field) input =
      Schema.undeclared (declared.map field) input := by
    simp only [Schema.undeclared, List.any_map]
    rfl
  rw [Schema.check, Schema.check, visited, dropped]

end Declared

namespace Schema

open Activity

/-! ### Working in passes -/

/-- One pass over some fields, on what is left of the input and what there is of the answer. Each field takes its name
out of the one, and puts its entry into the other. -/
def pass : List Field → Table Value × Table Value → String → Activity (Table Value × Table Value)
  | [], state, _ => done state
  | f :: fields, (left, answer), path => do
    let value ← f.visit left path
    pass fields (Table.erase left f.name, Table.insertAll answer (f.entry value)) path

/-- A pass over the required fields, one over those of the others that have a default, and one over those that have
none. What is then left of the input is dropped. -/
def passes (fields : List Field) (input : Table Value) (path : String) : Activity Value := do
  let (required, rest) := fields.partition (·.kind.isRequired)
  let (defaulted, optional) := rest.partition (·.kind.hasDefault)
  let state ← pass required (input, []) path
  let state ← pass defaulted state path
  let state ← pass optional state path
  noteDropped path state.1.keys
  done (.object state.2)

theorem pass_append (first second : List Field) (state : Table Value × Table Value) (path : String) :
    pass (first ++ second) state path = (pass first state path).bind fun state => pass second state path := by
  induction first generalizing state with
  | nil => rfl
  | cons f first ih =>
    rw [List.cons_append, pass, pass, bind_eq, bind_eq, bind_assoc]
    congr 1
    funext value
    exact ih _

/-- What is left of an input without the names of some fields. -/
def without (fields : List Field) (input : Table Value) : Table Value :=
  fields.foldl (fun left f => Table.erase left f.name) input

theorem keys_without (fields : List Field) (input : Table Value) :
    (without fields input).keys = undeclared fields input := by
  induction fields generalizing input with
  | nil => exact (List.filter_true _).symm
  | cons f fields ih =>
    have first : without (f :: fields) input = without fields (Table.erase input f.name) := rfl
    rw [first, ih, undeclared, undeclared, Table.keys_erase, List.filter_filter]
    refine List.filter_congr fun key _ => ?_
    rw [List.any_cons, Bool.not_or, Bool.and_comm, bne, Bool.beq_comm]

/-- Only names of other fields have been taken out of the input, so what a field reads is there still, and what it
writes goes to the end of the answer. -/
theorem pass_eq_visitAll {fields : List Field} (distinct : (fields.map (·.name)).Nodup)
    {input left answer : Table Value} (same : ∀ f ∈ fields, Table.get? left f.name = Table.get? input f.name)
    (fresh : ∀ f ∈ fields, f.name ∉ answer.keys) (path : String) :
    pass fields (left, answer) path =
      (visitAll fields input path).bind fun entries => done (without fields left, answer ++ entries) := by
  induction fields generalizing left answer with
  | nil => exact congrArg done (by rw [List.append_nil]; rfl)
  | cons f fields ih =>
    obtain ⟨apart, distinct⟩ := List.nodup_cons.mp distinct
    have other : ∀ g ∈ fields, g.name ≠ f.name := by
      intro g member equal
      exact apart (List.mem_map.mpr ⟨g, member, equal⟩)
    have visited : f.visit left path = f.visit input path :=
      Field.visit_congr rfl rfl (Field.given?_congr (same f List.mem_cons_self)) (fun _ _ => rfl) path
    have put : ∀ value, Table.insertAll answer (f.entry value) = answer ++ f.entry value := by
      rintro (_ | v)
      · exact (List.append_nil answer).symm
      · exact Table.insert_of_not_mem v (fresh f List.mem_cons_self)
    have rest : ∀ value, pass fields (Table.erase left f.name, answer ++ f.entry value) path =
        (visitAll fields input path).bind fun entries =>
          done (without (f :: fields) left, answer ++ f.entry value ++ entries) := by
      intro value
      refine ih distinct (fun g member => ?_) fun g member => ?_
      · rw [Table.get?_erase_other _ (other g member)]
        exact same g (List.mem_cons_of_mem _ member)
      · rw [Table.keys, List.map_append, List.mem_append, not_or]
        refine ⟨fresh g (List.mem_cons_of_mem _ member), ?_⟩
        cases value <;> simp [Field.entry, other g member]
    rw [pass, visitAll, visited]
    simp only [bind_eq, Activity.bind_assoc, put, rest, Activity.bind, List.append_assoc]

theorem partition_eq_ordered (fields : List Field) :
    (fields.partition (·.kind.isRequired)).1 ++
      (((fields.partition (·.kind.isRequired)).2.partition (·.kind.hasDefault)).1 ++
        ((fields.partition (·.kind.isRequired)).2.partition (·.kind.hasDefault)).2) = ordered fields := by
  have defaulted : ∀ kind : FieldKind, (kind.hasDefault && !kind.isRequired) = kind.hasDefault := by
    rintro (_ | _ | _) <;> rfl
  have optional : ∀ kind : FieldKind, (!kind.hasDefault && !kind.isRequired) = kind.isOptional := by
    rintro (_ | _ | _) <;> rfl
  simp only [List.partition_eq_filter_filter, List.filter_filter, Function.comp_def, defaulted, optional, ordered,
    List.append_assoc]

theorem check_eq_passes {fields : List Field} (distinct : (fields.map (·.name)).Nodup) (input : Table Value)
    (path : String) : check fields (.object input) path = passes fields input path := by
  have orderedDistinct : ((ordered fields).map (·.name)).Nodup := (((ordered_perm fields).map _).nodup_iff).mpr distinct
  have undeclared_ordered : undeclared (ordered fields) input = undeclared fields input := by
    refine List.filter_congr fun key _ => congrArg (!·) ?_
    rw [Bool.eq_iff_iff, List.any_eq_true, List.any_eq_true]
    simp only [mem_ordered]
  have inOnePass : passes fields input path =
      (pass (ordered fields) (input, []) path).bind fun state =>
        (noteDropped path state.1.keys).bind fun _ => done (.object state.2) := by
    rw [← partition_eq_ordered, pass_append, bind_assoc]
    simp only [pass_append, bind_assoc]
    rfl
  rw [inOnePass, pass_eq_visitAll orderedDistinct (fun _ _ => rfl) (fun _ _ => List.not_mem_nil) path, bind_assoc]
  simp only [Activity.bind, keys_without, undeclared_ordered, List.nil_append]
  rfl

end Schema

/-! ### Schemas as sums -/

namespace Registry

open Declared

variable {entries : Table Value} {declared : List Declared}

theorem names_of_gives {argument : Value} {context : Factory.Context argument}
    (gives : List.Forall₂ context.Gives entries declared) : declared.map (·.name) = entries.keys := by
  induction gives with
  | nil => rfl
  | cons first _ ih => rw [List.map_cons, first.1, ih, Table.keys, Table.keys, List.map_cons]

theorem result_schemaFields {argument : Value} {context : Factory.Context argument}
    (lower : Value.depthFields entries ≤ argument.depth) (gives : List.Forall₂ context.Gives entries declared) :
    (schemaFields context entries lower).result = .ok (declared.map field) := by
  induction gives with
  | nil => rfl
  | @cons e d entries declared first _ ih =>
    obtain ⟨name, v⟩ := e
    obtain ⟨rfl, read, lower', compiled⟩ := first
    rw [schemaFields]
    split
    · rename_i e refused
      rw [read] at refused
      cases refused
    · rename_i s read'
      obtain rfl : d.spec = s := Except.ok.inj (read.symm.trans read')
      simp only [Compilation.bind_eq, Compilation.result_bind_eq_ok_iff]
      exact ⟨d.check, compiled, declared.map field, ih _, rfl⟩

variable {context : Factory.Context (.object entries)}

theorem result_schemaFactory (gives : List.Forall₂ context.Gives entries declared) :
    (schemaFactory (.object entries) context).result = .ok (Schema.check (declared.map field)) := by
  simp only [schemaFactory, Compilation.bind_eq, Compilation.result_bind_eq_ok_iff]
  exact ⟨declared.map field, result_schemaFields _ gives, (), rfl, rfl⟩

/-- The check of a schema of additive checks is the sum of what its fields contribute: in collecting, it adds their
errors to those before and answers with their entries, both in the order of the fields. It does what passes do that take
keys out of the input, and a check that is not run may be any check. -/
theorem schema_sums_contributions (distinct : entries.Distinct) (gives : List.Forall₂ context.Gives entries declared)
    (additive : ∀ d ∈ declared, d.check.Additive) :
    (inOrder declared).Perm declared ∧ ((inOrder declared).map (·.name)).Nodup ∧
    ∃ check, (schemaFactory (.object entries) context).result = .ok check ∧ ∀ input path,
      (∀ j, ((check (.object input) path).run .collectAll j).1 = .done (.object
          ((inOrder declared).flatMap fun d => (d.contribution path (Table.get? input d.name)).entries)) ∧
        ((check (.object input) path).run .collectAll j).2.errors = j.errors ++
          (inOrder declared).flatMap fun d => (d.contribution path (Table.get? input d.name)).errors) ∧
      check (.object input) path = Schema.passes (declared.map field) input path ∧
      ∀ swap : Declared → Check,
        (∀ d ∈ declared, (d.subject? (Table.get? input d.name)).isSome → swap d = d.check) →
        Schema.check (declared.map fun d => (d.withCheck (swap d)).field) (.object input) path =
          check (.object input) path := by
  have names : (declared.map (·.name)).Nodup := by
    rw [names_of_gives gives]
    exact distinct
  have order := inOrder_perm declared
  refine ⟨order, (order.map _).nodup_iff.mpr names, _, result_schemaFactory gives, fun input path => ⟨?_, ?_, ?_⟩⟩
  · exact (adds_check additive input path).run
  · refine Schema.check_eq_passes ?_ input path
    rwa [List.map_map]
  · exact fun swap same => check_withCheck same path

/-- A form with an amount, an identity that must be given, and a note. -/
def form : Table Value :=
  [("note", .object []), ("amount", .object [("type", .string "number"), ("def", .bool true)]),
    ("id", .object [("required", .bool true)])]

def formFields : List Declared :=
  [⟨"note", ⟨[], false, none⟩, Check.guarded false none (Check.chain [])⟩,
    ⟨"amount", ⟨[("type", .string "number")], false, some (.bool true)⟩,
      Check.guarded false (some (.bool true)) (Check.chain [⟨"type", LeafType.number.check⟩])⟩,
    ⟨"id", ⟨[("required", .bool true)], false, none⟩,
      Check.guarded false none (Check.chain [⟨"required", Check.identity⟩])⟩]

theorem gives_formFields : List.Forall₂ (builtin.context (.object form)).Gives form formFields :=
  .cons ⟨rfl, rfl, by decide, rfl⟩ (.cons ⟨rfl, rfl, by decide, rfl⟩ (.cons ⟨rfl, rfl, by decide, rfl⟩ .nil))

def formInput : Value := .object [("amount", .array []), ("page", .string "2"), ("note", .null)]

theorem form_sums : ∃ check, (schemaFactory (.object form) (builtin.context (.object form))).result = .ok check ∧
    ((check formInput ".form").run .collectAll .empty).1 = .done (.object [("amount", .null), ("note", .null)]) ∧
    ((check formInput ".form").run .collectAll .empty).2.errors =
      [⟨"required, but not given", ".form.id", []⟩, ⟨"Not a number", ".form.amount", []⟩,
        ⟨"Can't be null", ".form.note", []⟩] := by
  have additive : ∀ d ∈ formFields, d.check.Additive := by
    intro d member
    obtain ⟨_, _, _, _, lower, compiled⟩ := forall₂_mem_right gives_formFields member
    exact (hereditary_regular.compile_builtin d.spec compiled).additive
  have distinct : form.Distinct := by unfold Table.Distinct; decide
  obtain ⟨-, -, check, made, sums⟩ := schema_sums_contributions distinct gives_formFields additive
  obtain ⟨⟨answer, errors⟩, -⟩ := (sums _ ".form").imp_left fun sum => sum Journal.empty
  exact ⟨check, made, answer, errors⟩

end Registry

end Conform
