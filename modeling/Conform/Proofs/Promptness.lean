import Conform.Proofs.Compiled
import Conform.Schedule

/-!
# Checks without their suspensions

A check that is made prompt runs as before, but is never suspended (`run_prompt`, `suspensions_prompt`). Chains and
schemas are made prompt by making their parts prompt (`prompt_chain`, `prompt_schema`). Two registries that differ only
in how often their checks suspend compile a spec to checks that differ only in that (`Retimes.compile`).
-/

namespace Conform

namespace Activity

variable {α β : Type}

/-- The activity without its suspensions. -/
def prompt : Activity α → Activity α
  | done a => done a
  | halted => halted
  | suspended rest => rest.prompt
  | ask q next => ask q fun answer => (next answer).prompt

theorem prompt_bind (m : Activity α) (k : α → Activity β) :
    (m.bind k).prompt = m.prompt.bind fun a => (k a).prompt := by
  induction m with
  | done a => rfl
  | halted => rfl
  | suspended rest ih => exact ih
  | ask q next ih => simp only [bind, prompt, ih]

theorem prompt_prompt (m : Activity α) : m.prompt.prompt = m.prompt := by
  induction m with
  | done a => rfl
  | halted => rfl
  | suspended rest ih => exact ih
  | ask q next ih => simp only [prompt, ih]

theorem prompt_suspend (n : Nat) : (suspend n).prompt = done () := by
  induction n with
  | zero => rfl
  | succ n ih => exact ih

theorem prompt_record (e : ValidationError) : (record e).prompt = record e := by
  have heeded : ∀ signal, (heed signal).prompt = heed signal := by
    intro signal
    cases signal <;> rfl
  exact congrArg (ask (.record e)) (funext heeded)

theorem run_prompt (policy : Policy) (m : Activity α) (j : Journal) : m.prompt.run policy j = m.run policy j := by
  induction m generalizing j with
  | done a => rfl
  | halted => rfl
  | suspended rest ih => exact ih j
  | ask q next ih => exact ih _ _

theorem suspensions_prompt (policy : Policy) (m : Activity Value) (j : Journal) :
    Run.suspensions policy m.prompt j = 0 := by
  induction m generalizing j with
  | done a => rfl
  | halted => rfl
  | suspended rest ih => exact ih j
  | ask q next ih => exact ih _ _

end Activity

/-! ### Chains and schemas -/

open Activity

def Check.prompt (check : Check) : Check := fun v path => (check v path).prompt

def Check.Step.prompt (step : Check.Step) : Check.Step := { step with check := step.check.prompt }

def Field.prompt (f : Field) : Field := { f with check := f.check.prompt }

namespace Check

theorem prompt_refuse (message path : String) : (refuse message path).prompt = refuse message path := by
  rw [refuse, Activity.bind_eq, prompt_bind, prompt_record]
  rfl

theorem prompt_chain (steps : List Step) : (chain steps).prompt = chain (steps.map Step.prompt) := by
  funext v path
  induction steps generalizing v with
  | nil => rfl
  | cons step steps ih =>
    refine congrArg (ask .count) (funext fun before => ?_)
    refine (prompt_bind (step.check v path) _).trans (congrArg _ (funext fun w => ?_))
    refine congrArg (ask .count) (funext fun after => ?_)
    simp only [Activity.bind]
    split
    · rfl
    · exact ih w

theorem prompt_guarded (nullable : Bool) (default : Option Value) (check : Check) :
    (guarded nullable default check).prompt = guarded nullable default check.prompt := by
  funext v path
  unfold prompt guarded
  split
  · unfold onNull
    split
    · rfl
    · split
      · rfl
      · exact prompt_refuse nullMessage path
  · rfl

end Check

namespace Field

theorem prompt_visit (f : Field) (input : Table Value) (path : String) :
    (f.visit input path).prompt = f.prompt.visit input path := by
  have same : f.prompt.given? input = f.given? input := rfl
  unfold visit
  rw [same]
  cases f.given? input with
  | some v =>
    simp only [Activity.bind_eq, prompt_bind]
    rfl
  | none =>
    rw [show f.prompt.kind = f.kind from rfl]
    cases f.kind with
    | required =>
      simp only [Activity.bind_eq, prompt_bind, prompt_record]
      rfl
    | _ => rfl

end Field

namespace Schema

theorem prompt_visitAll (fields : List Field) (input : Table Value) (path : String) :
    (visitAll fields input path).prompt = visitAll (fields.map Field.prompt) input path := by
  induction fields with
  | nil => rfl
  | cons f fields ih =>
    simp only [visitAll, List.map_cons, Activity.bind_eq, prompt_bind, Field.prompt_visit, ih]
    rfl

theorem ordered_map_prompt (fields : List Field) :
    ordered (fields.map Field.prompt) = (ordered fields).map Field.prompt := by
  simp only [ordered, List.map_append, List.filter_map]
  rfl

theorem prompt_check (fields : List Field) : (check fields).prompt = check (fields.map Field.prompt) := by
  funext v path
  cases v with
  | object input =>
    have dropped : undeclared (fields.map Field.prompt) input = undeclared fields input := by
      simp only [undeclared, List.any_map]
      rfl
    simp only [Check.prompt, check, Activity.bind_eq, prompt_bind, prompt_visitAll, ordered_map_prompt, dropped]
    congr 1
    funext entries
    congr 1
    unfold noteDropped
    split <;> rfl
  | _ => exact Check.prompt_refuse _ path

end Schema

/-! ### Registries whose checks differ in their suspensions -/

namespace Compilation

variable {α β γ δ : Type}

def map (f : α → β) (m : Compilation α) : Compilation β := ⟨m.result.map f, m.events⟩

theorem map_bind_congr {m n : Compilation α} {k l : α → Compilation β} {f : α → γ} {g : β → δ}
    (first : m.map f = n.map f) (second : ∀ a b, f a = f b → (k a).map g = (l b).map g) :
    (m.bind k).map g = (n.bind l).map g := by
  obtain ⟨result, events⟩ := m
  obtain ⟨other, _⟩ := n
  injection first with results sameEvents
  cases sameEvents
  cases result with
  | error e =>
    cases other with
    | error e' =>
      cases results
      rfl
    | ok b => cases results
  | ok a =>
    cases other with
    | error e => cases results
    | ok b =>
      have next := second a b (Except.ok.inj results)
      injection next with nextResult nextEvents
      simp only [bind, map, nextResult, nextEvents]

theorem map_note_congr {e e' : Event} (same : e = e') {m n : Compilation α} {f : α → β} (next : m.map f = n.map f) :
    ((note e).bind fun _ => m).map f = ((note e').bind fun _ => n).map f := by
  subst same
  injection next with nextResult nextEvents
  simp only [note, bind, map, nextResult, nextEvents]

end Compilation

/-- The checks that are lent differ in their suspensions only. -/
structure Factory.Context.Retimes {argument : Value} (context other : Factory.Context argument) : Prop where
  types : ∀ name, (context.types.get? name).map Check.prompt = (other.types.get? name).map Check.prompt
  compile : ∀ s h, (context.compile s h).map Check.prompt = (other.compile s h).map Check.prompt

/-- The checks that are made differ in their suspensions only, if that is so of the checks that are lent. -/
def Factory.Retimes (factory other : Factory) : Prop :=
  ∀ (argument : Value) (context context' : Factory.Context argument), context.Retimes context' →
    (factory argument context).map Check.prompt = (other argument context').map Check.prompt

structure Registry.Retimes (r r' : Registry) : Prop where
  validators : ∀ name, Option.Rel Factory.Retimes (r.factory? name) (r'.factory? name)
  types : ∀ name, (r.type? name).map Check.prompt = (r'.type? name).map Check.prompt

namespace Registry

theorem Retimes.register {r r' : Registry} (retimes : r.Retimes r') (name : String) {factory other : Factory}
    (made : factory.Retimes other) : (r.register name factory).Retimes (r'.register name other) where
  validators := by
    intro asked
    unfold Registry.factory? Registry.register
    by_cases same : asked = name
    · subst same
      simp only [Table.get?_insert_same]
      exact .some made
    · simp only [Table.get?_insert_other _ _ same]
      exact retimes.validators asked
  types := retimes.types

theorem Retimes.registerType {r r' : Registry} (retimes : r.Retimes r') (name : String) {check other : Check}
    (made : check.prompt = other.prompt) : (r.registerType name check).Retimes (r'.registerType name other) where
  validators := retimes.validators
  types := by
    intro asked
    unfold Registry.type? Registry.registerType
    by_cases same : asked = name
    · subst same
      simp only [Table.get?_insert_same, Option.map_some, made]
    · simp only [Table.get?_insert_other _ _ same]
      exact retimes.types asked

theorem Retimes.resolve {r r' : Registry} (retimes : r.Retimes r') {bound : Nat}
    (lent : ∀ argument : Value, argument.depth ≤ bound → (r.context argument).Retimes (r'.context argument)) :
    ∀ (entries : List (String × Value)) (h : Value.depthFields entries ≤ bound),
      (resolve r.validators (fun argument _ => r.context argument) entries h).map (List.map Check.Step.prompt) =
        (resolve r'.validators (fun argument _ => r'.context argument) entries h).map (List.map Check.Step.prompt)
  | [], _ => rfl
  | (name, argument) :: entries, h => by
    have bounds := h
    simp only [Value.depthFields] at bounds
    have found := retimes.validators name
    unfold factory? at found
    simp only [Registry.resolve]
    cases one : r.validators.get? name <;> cases other : r'.validators.get? name <;> rw [one, other] at found
    · cases found
    · cases found
    · rename_i factory factory'
      cases found
      rename_i made
      apply Compilation.map_bind_congr (made argument _ _ (lent argument (by omega)))
      intro check check' sameCheck
      apply Compilation.map_bind_congr (Retimes.resolve retimes lent entries _)
      intro steps steps' sameSteps
      have step : Check.Step.prompt ⟨name, check⟩ = Check.Step.prompt ⟨name, check'⟩ := by
        simp only [Check.Step.prompt, sameCheck]
      simp only [Compilation.map, Compilation.done, Except.map, List.map_cons, step, sameSteps]

/-- What is compiled differs in suspensions only. Factories go back to the registry for nested specs, so the induction
is on the depth of the spec. -/
theorem Retimes.compile {r r' : Registry} (retimes : r.Retimes r') (s : Spec) :
    (r.compile s).map Check.prompt = (r'.compile s).map Check.prompt := by
  rw [compile_eq, compile_eq]
  apply Compilation.map_bind_congr
  · apply retimes.resolve
    intro argument lower
    refine ⟨retimes.types, fun t nested => ?_⟩
    exact Retimes.compile retimes t
  · intro steps steps' same
    have names : steps.map (·.name) = steps'.map (·.name) := by
      have kept := congrArg (List.map Check.Step.name) same
      rw [List.map_map, List.map_map] at kept
      exact kept
    unfold assemble
    refine Compilation.map_note_congr (by rw [names]) ?_
    simp only [Compilation.map, Compilation.done, Except.map, Check.prompt_guarded, Check.prompt_chain, same]
termination_by s.depth
decreasing_by simp only [Spec.depth] at *; omega

theorem Retimes.compile_ok {r r' : Registry} (retimes : r.Retimes r') {s : Spec} {check : Check}
    (compiled : (r.compile s).result = .ok check) :
    ∃ other, (r'.compile s).result = .ok other ∧ other.prompt = check.prompt := by
  have same := congrArg Compilation.result (retimes.compile s)
  simp only [Compilation.map, compiled, Except.map] at same
  cases other : (r'.compile s).result with
  | error e =>
    rw [other] at same
    cases same
  | ok check' =>
    rw [other] at same
    exact ⟨check', rfl, (Except.ok.inj same).symm⟩

theorem retimes_typeFactory : typeFactory.Retimes typeFactory := by
  intro argument context other lent
  unfold typeFactory
  cases argument.string? with
  | none => rfl
  | some name =>
    have types := lent.types name
    dsimp only
    cases found : context.types.get? name <;> cases found' : other.types.get? name <;> rw [found, found'] at types
    · cases types
    · cases types
    · simp only [Compilation.map, Compilation.done, Except.map, Option.some.inj types]

theorem map_schemaFields {argument : Value} {context other : Factory.Context argument} (lent : context.Retimes other) :
    ∀ (entries : List (String × Value)) (h : Value.depthFields entries ≤ argument.depth),
      (schemaFields context entries h).map (List.map Field.prompt) =
        (schemaFields other entries h).map (List.map Field.prompt)
  | [], _ => rfl
  | (name, v) :: entries, h => by
    simp only [schemaFields]
    split
    · rfl
    · rename_i s _
      apply Compilation.map_bind_congr (lent.compile s _)
      intro check check' sameCheck
      apply Compilation.map_bind_congr (map_schemaFields lent entries _)
      intro fields fields' sameFields
      have field : (Field.ofSpec name s check).prompt = (Field.ofSpec name s check').prompt := by
        simp only [Field.ofSpec, Field.prompt, sameCheck]
      simp only [Compilation.map, Compilation.done, Except.map, List.map_cons, field, sameFields]

theorem compiled_map_prompt (fields : List Field) :
    Schema.compiled (fields.map Field.prompt) = Schema.compiled fields := by
  simp only [Schema.compiled, List.filter_map, List.length_map]
  rfl

theorem retimes_schemaFactory : schemaFactory.Retimes schemaFactory := by
  intro argument context other lent
  cases argument with
  | object entries =>
    apply Compilation.map_bind_congr (map_schemaFields lent entries _)
    intro fields fields' same
    have counts : Schema.compiled fields = Schema.compiled fields' := by
      rw [← compiled_map_prompt, same, compiled_map_prompt]
    refine Compilation.map_note_congr counts ?_
    simp only [Compilation.map, Compilation.done, Except.map, Schema.prompt_check, same]
  | _ => rfl

theorem retimes_builtin : builtin.Retimes builtin where
  validators := by
    intro name
    cases found : builtin.factory? name with
    | none => exact .none
    | some factory =>
      rcases factory?_builtin found with ⟨_, rfl⟩ | ⟨_, rfl⟩ | ⟨_, rfl⟩
      · exact .some retimes_typeFactory
      · exact .some retimes_schemaFactory
      · exact .some fun _ _ _ _ => rfl
  types := fun _ => rfl

end Registry

end Conform
