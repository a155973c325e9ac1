import Conform.Compilation
import Conform.Schema

/-!
# Registries

A registry has a table of validators and a table of types. A validator is a factory: it makes a check of the
argument that a spec gives it. A factory may use the types of the registry and may have specs compiled that
nest no deeper than its argument, which is why compiling comes to an end.
-/

namespace Conform

/-- What a factory may use to make a check of its argument. -/
structure Factory.Context (argument : Value) where
  types : Table Check
  compile : (s : Spec) → s.depth ≤ argument.depth → Compilation Check

/-- A maker of checks. -/
abbrev Factory := (argument : Value) → Factory.Context argument → Compilation Check

def Factory.Context.compileValue {argument : Value} (context : Factory.Context argument) (v : Value)
    (h : v.depth ≤ argument.depth) : Compilation Check :=
  match hs : Spec.ofValue v with
  | .error e => .fail e
  | .ok s => context.compile s (Nat.le_trans (Spec.depth_ofValue_le hs) h)

structure Registry where
  validators : Table Factory
  types : Table Check

namespace Registry

def empty : Registry := ⟨[], []⟩

def register (r : Registry) (name : String) (factory : Factory) : Registry :=
  { r with validators := r.validators.insert name factory }

def registerType (r : Registry) (name : String) (check : Check) : Registry :=
  { r with types := r.types.insert name check }

def unregister (r : Registry) (name : String) : Registry :=
  { r with validators := r.validators.erase name }

def unregisterType (r : Registry) (name : String) : Registry := { r with types := r.types.erase name }

/-- Whether there is a validator to unregister, and the registry without it. -/
def withdraw (r : Registry) (name : String) : Bool × Registry :=
  let (found, validators) := r.validators.extract name
  (found.isSome, { r with validators })

def withdrawType (r : Registry) (name : String) : Bool × Registry :=
  let (found, types) := r.types.extract name
  (found.isSome, { r with types })

def factory? (r : Registry) (name : String) : Option Factory := r.validators.get? name

def type? (r : Registry) (name : String) : Option Check := r.types.get? name

def contains (r : Registry) (name : String) : Bool := r.validators.contains name

def containsType (r : Registry) (name : String) : Bool := r.types.contains name

def validatorNames (r : Registry) : List String := r.validators.keys

def typeNames (r : Registry) : List String := r.types.keys

def size (r : Registry) : Nat := r.validators.length

def isEmpty (r : Registry) : Bool := r.validators.isEmpty

/-! ### Registrations -/

inductive Registration where
  | validator (name : String) (factory : Factory)
  | type (name : String) (check : Check)

def add (r : Registry) : Registration → Registry
  | .validator name factory => r.register name factory
  | .type name check => r.registerType name check

def addAll (r : Registry) (registrations : List Registration) : Registry := registrations.foldl add r

def Registration.event : Registration → Event
  | validator name _ => .registeredValidator name
  | type name _ => .registeredType name

/-! ### Compiling -/

/-- The steps of entries, each made by the factory under its name from its argument. -/
def resolve {bound : Nat} (validators : Table Factory)
    (context : (argument : Value) → argument.depth ≤ bound → Factory.Context argument) :
    (entries : List (String × Value)) → Value.depthFields entries ≤ bound → Compilation (List Check.Step)
  | [], _ => .done []
  | (name, argument) :: entries, h =>
    match validators.get? name with
    | none => .fail (.unknownValidator name)
    | some factory => do
      let check ← factory argument (context argument (by simp only [Value.depthFields] at h; omega))
      let steps ← resolve validators context entries (by simp only [Value.depthFields] at h; omega)
      .done (⟨name, check⟩ :: steps)

def assemble (s : Spec) (steps : List Check.Step) : Compilation Check := do
  .note (.compiledSpec (steps.map (·.name)))
  .done (Check.guarded s.nullable s.default (Check.chain steps))

def compileWithin (r : Registry) : (bound : Nat) → (s : Spec) → s.depth ≤ bound → Compilation Check
  | 0, _, h => absurd h (Nat.not_succ_le_zero _)
  | bound + 1, s, h => do
    let steps ← resolve r.validators
      (fun _ ha => ⟨r.types, fun t ht => compileWithin r bound t (Nat.le_trans ht ha)⟩)
      s.entries (Nat.le_of_succ_le_succ h)
    assemble s steps

def compile (r : Registry) (s : Spec) : Compilation Check := compileWithin r s.depth s (Nat.le_refl _)

def compileValue (r : Registry) (v : Value) : Compilation Check :=
  match Spec.ofValue v with
  | .error e => .fail e
  | .ok s => r.compile s

def context (r : Registry) (argument : Value) : Factory.Context argument :=
  ⟨r.types, fun s _ => r.compile s⟩

theorem resolve_congr {bound bound' : Nat} (validators : Table Factory)
    {context : (argument : Value) → argument.depth ≤ bound → Factory.Context argument}
    {context' : (argument : Value) → argument.depth ≤ bound' → Factory.Context argument}
    (same : ∀ argument h h', context argument h = context' argument h') :
    ∀ (entries : List (String × Value)) (h : Value.depthFields entries ≤ bound)
      (h' : Value.depthFields entries ≤ bound'),
      resolve validators context entries h = resolve validators context' entries h'
  | [], _, _ => rfl
  | (name, argument) :: entries, h, h' => by
    simp only [Value.depthFields] at h h'
    simp only [resolve]
    split
    · rfl
    · rw [same argument _ (by omega), resolve_congr validators same entries _ (by omega)]

theorem compileWithin_congr (r : Registry) : ∀ {bound bound' : Nat} {s : Spec} (h : s.depth ≤ bound)
    (h' : s.depth ≤ bound'), compileWithin r bound s h = compileWithin r bound' s h'
  | 0, _, _, h, _ => absurd h (Nat.not_succ_le_zero _)
  | _ + 1, 0, _, _, h' => absurd h' (Nat.not_succ_le_zero _)
  | n + 1, m + 1, s, h, h' => by
    simp only [compileWithin]
    rw [resolve_congr r.validators fun argument ha ha' => ?_]
    congr 1
    funext t ht
    exact compileWithin_congr r _ _

theorem compileWithin_eq_compile (r : Registry) {bound : Nat} {s : Spec} (h : s.depth ≤ bound) :
    compileWithin r bound s h = r.compile s := compileWithin_congr r h (Nat.le_refl _)

theorem compile_eq (r : Registry) (s : Spec) :
    r.compile s =
      (resolve r.validators (fun argument _ => r.context argument) s.entries (Nat.le_refl _)).bind
        (assemble s) := by
  have lent : (fun (argument : Value) (h : argument.depth ≤ Value.depthFields s.entries) =>
        (⟨r.types, fun t ht => compileWithin r (Value.depthFields s.entries) t (Nat.le_trans ht h)⟩ :
          Factory.Context argument)) = fun argument _ => r.context argument := by
    funext argument h
    simp only [context, compileWithin_eq_compile]
  rw [← lent]
  rfl

end Registry

end Conform
