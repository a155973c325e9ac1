import Conform.Proofs.Building
import Conform.Proofs.Likeness
import Conform.Proofs.Reading
import Mathlib.Data.List.Induction

/-!
# Tables tell their history

What a table shows is settled by the edits that were made on it. A name is listed if the last edit under it puts something
there, which is then what is found, and names stand in the order in which their present stay began (`Recounts.editAll`). A
registry is two such tables, each with its own edits (`registry_recounts`).
-/

namespace Conform

namespace Table

variable {α : Type}

/-- A change of a table under one name. -/
inductive Edit (α : Type) where
  | put (name : String) (a : α)
  | drop (name : String)

namespace Edit

def name : Edit α → String
  | put name _ => name
  | drop name => name

def content? : Edit α → Option α
  | put _ a => some a
  | drop _ => none

end Edit

def edit (t : Table α) : Edit α → Table α
  | .put name a => t.insert name a
  | .drop name => t.erase name

def editAll (t : Table α) (edits : List (Edit α)) : Table α := edits.foldl edit t

/-! ### What edits come to -/

/-- The last edit under a name. -/
def last? (edits : List (Edit α)) (name : String) : Option (Edit α) := edits.reverse.find? (·.name == name)

/-- Of the edits under a name, the last puts something there. -/
def Present (edits : List (Edit α)) (name : String) : Prop := ∃ a, last? edits name = some (.put name a)

/-- The present stay of a name began with the edit at a position: it puts something there where nothing was, and from then on
the name was always there. -/
structure BeganAt (edits : List (Edit α)) (name : String) (position : Nat) : Prop where
  put : ∃ a, edits[position]? = some (.put name a)
  before : ¬ Present (edits.take position) name
  after : ∀ later, position < later → later ≤ edits.length → Present (edits.take later) name

/-- The present stay of one name began before that of another. -/
def BeganBefore (edits : List (Edit α)) (first second : String) : Prop :=
  ∃ i j, BeganAt edits first i ∧ BeganAt edits second j ∧ i < j

/-- What is listed and found, as the edits have it. -/
structure Recounts (edits : List (Edit α)) (names : List String) (find? : String → Option α) : Prop where
  distinct : names.Nodup
  listed : ∀ name, name ∈ names ↔ Present edits name
  found : ∀ name, find? name = (last? edits name).bind Edit.content?
  began : ∀ name ∈ names, ∃! position, BeganAt edits name position
  ordered : names.Pairwise (BeganBefore edits)

/-! ### One edit more -/

variable {edits : List (Edit α)} {t : Table α}

theorem last?_concat (edits : List (Edit α)) (e : Edit α) (name : String) :
    last? (edits ++ [e]) name = if e.name = name then some e else last? edits name := by
  rw [last?, List.reverse_append, List.reverse_singleton, List.singleton_append]
  by_cases same : e.name = name
  · rw [if_pos same, List.find?_cons_of_pos (by simpa using same)]
  · rw [if_neg same, List.find?_cons_of_neg (by simpa using same), last?]

theorem present_concat_put {key name : String} {a : α} :
    Present (edits ++ [.put key a]) name ↔ name = key ∨ Present edits name := by
  by_cases same : key = name
  · simp [Present, last?_concat, Edit.name, same]
  · simp [Present, last?_concat, Edit.name, same, Ne.symm same]

theorem present_concat_drop {key name : String} :
    Present (edits ++ [.drop key]) name ↔ name ≠ key ∧ Present edits name := by
  by_cases same : key = name
  · simp [Present, last?_concat, Edit.name, same]
  · simp [Present, last?_concat, Edit.name, same, Ne.symm same]

theorem BeganAt.lt {name : String} {position : Nat} (began : BeganAt edits name position) : position < edits.length := by
  obtain ⟨a, here⟩ := began.put
  exact (List.getElem?_eq_some_iff.mp here).1

theorem BeganAt.unique {name : String} {i j : Nat} (first : BeganAt edits name i) (second : BeganAt edits name j) :
    i = j := by
  rcases Nat.lt_trichotomy i j with less | same | more
  · exact absurd (first.after j less (Nat.le_of_lt second.lt)) second.before
  · exact same
  · exact absurd (second.after i more (Nat.le_of_lt first.lt)) first.before

/-- A stay goes on as long as the name is there. -/
theorem BeganAt.concat {name : String} {position : Nat} (began : BeganAt edits name position) {e : Edit α}
    (still : Present (edits ++ [e]) name) : BeganAt (edits ++ [e]) name position := by
  have bound := began.lt
  constructor
  · obtain ⟨a, here⟩ := began.put
    exact ⟨a, by rw [List.getElem?_append_left bound, here]⟩
  · rw [List.take_append_of_le_length (Nat.le_of_lt bound)]
    exact began.before
  · intro later past upTo
    rw [List.length_append, List.length_singleton] at upTo
    rcases Nat.lt_or_eq_of_le upTo with inside | last
    · rw [List.take_append_of_le_length (Nat.le_of_lt_succ inside)]
      exact began.after later past (Nat.le_of_lt_succ inside)
    · rw [List.take_of_length_le (by simp [last])]
      exact still

theorem beganAt_last {name : String} (absent : ¬ Present edits name) (a : α) :
    BeganAt (edits ++ [.put name a]) name edits.length := by
  constructor
  · exact ⟨a, by simp⟩
  · rwa [List.take_left]
  · intro later past upTo
    rw [List.take_of_length_le (by rw [List.length_append, List.length_singleton]; exact past)]
    exact present_concat_put.mpr (.inl rfl)

/-- Names that are still there stand in the order in which they stood. -/
theorem Recounts.ordered_kept (told : Recounts edits t.keys t.get?) (e : Edit α) {names : List String}
    (kept : names.Sublist t.keys) (still : ∀ name ∈ names, Present (edits ++ [e]) name) :
    names.Pairwise (BeganBefore (edits ++ [e])) := by
  refine (told.ordered.sublist kept).imp_of_mem fun firstThere secondThere earlier => ?_
  obtain ⟨i, j, first, second, less⟩ := earlier
  exact ⟨i, j, first.concat (still _ firstThere), second.concat (still _ secondThere), less⟩

theorem recounts_nil : Recounts ([] : List (Edit α)) (keys ([] : Table α)) (get? []) where
  distinct := List.nodup_nil
  listed name := by simp [Present, last?]
  found _ := rfl
  began _ := nofun
  ordered := .nil

theorem Recounts.put (told : Recounts edits t.keys t.get?) (key : String) (a : α) :
    Recounts (edits ++ [.put key a]) (t.insert key a).keys (t.insert key a).get? where
  distinct := distinct_insert key a told.distinct
  listed name := by rw [mem_keys_insert, present_concat_put, told.listed]
  found name := by
    rw [last?_concat]
    by_cases same : key = name
    · subst same
      rw [get?_insert_same, Edit.name, if_pos rfl]
      rfl
    · rw [get?_insert_other t a (Ne.symm same), Edit.name, if_neg same, told.found]
  began name there := by
    by_cases old : name ∈ t.keys
    · obtain ⟨position, began, -⟩ := told.began name old
      have still : Present (edits ++ [.put key a]) name := present_concat_put.mpr (.inr ((told.listed name).mp old))
      have goesOn := began.concat still
      exact ⟨position, goesOn, fun other began => began.unique goesOn⟩
    · obtain rfl := ((mem_keys_insert a).mp there).resolve_right old
      have begins := beganAt_last (fun present => old ((told.listed name).mpr present)) a
      exact ⟨edits.length, begins, fun other began => began.unique begins⟩
  ordered := by
    have still : ∀ name ∈ t.keys, Present (edits ++ [.put key a]) name := fun name old =>
      present_concat_put.mpr (.inr ((told.listed name).mp old))
    have kept := told.ordered_kept (.put key a) (List.Sublist.refl _) still
    by_cases old : key ∈ t.keys
    · rw [keys_insert_of_mem a old]
      exact kept
    · rw [keys_insert_of_not_mem a old, List.pairwise_append]
      refine ⟨kept, List.pairwise_singleton _ _, fun name there other last => ?_⟩
      obtain rfl := List.mem_singleton.mp last
      obtain ⟨position, began, -⟩ := told.began name there
      exact ⟨position, edits.length, began.concat (still name there),
        beganAt_last (fun present => old ((told.listed other).mpr present)) a, began.lt⟩

theorem Recounts.drop (told : Recounts edits t.keys t.get?) (key : String) :
    Recounts (edits ++ [.drop key]) (t.erase key).keys (t.erase key).get? := by
  have listed : ∀ name, name ∈ (t.erase key).keys ↔ Present (edits ++ [.drop key]) name := by
    intro name
    rw [keys_erase, List.mem_filter, present_concat_drop, told.listed, bne_iff_ne, and_comm]
  have kept : (t.erase key).keys.Sublist t.keys := by
    rw [keys_erase]
    exact List.filter_sublist
  refine ⟨distinct_erase key told.distinct, listed, fun name => ?_, fun name there => ?_, ?_⟩
  · rw [last?_concat]
    by_cases same : key = name
    · subst same
      rw [get?_erase_same, Edit.name, if_pos rfl]
      rfl
    · rw [get?_erase_other t (Ne.symm same), Edit.name, if_neg same, told.found]
  · obtain ⟨position, began, -⟩ := told.began name (kept.subset there)
    have goesOn := began.concat ((listed name).mp there)
    exact ⟨position, goesOn, fun other began => began.unique goesOn⟩
  · exact told.ordered_kept (.drop key) kept fun name there => (listed name).mp there

theorem Recounts.edit (told : Recounts edits t.keys t.get?) (e : Edit α) :
    Recounts (edits ++ [e]) (t.edit e).keys (t.edit e).get? := by
  cases e with
  | put key a => exact told.put key a
  | drop key => exact told.drop key

/-- Whatever edits are made on a table that tells its history, it tells it. -/
theorem Recounts.editAll (told : Recounts edits t.keys t.get?) (later : List (Edit α)) :
    Recounts (edits ++ later) (t.editAll later).keys (t.editAll later).get? := by
  induction later generalizing edits t with
  | nil => rwa [List.append_nil]
  | cons e later ih =>
    rw [← List.singleton_append, ← List.append_assoc]
    exact ih (told.edit e)

/-- The edits that make a table of what it lists. -/
def origin (t : Table α) : List (Edit α) := t.map fun e => .put e.1 e.2

theorem recounts_origin (distinct : t.Distinct) : Recounts t.origin t.keys t.get? := by
  have made : editAll [] t.origin = t := by
    rw [editAll, origin, List.foldl_map]
    exact ofList_of_distinct distinct
  have told := recounts_nil.editAll t.origin
  rwa [made, List.nil_append] at told

end Table

namespace Registry

open Table

/-! ### Registries -/

def Update.validatorEdit? : Update → Option (Edit Factory)
  | add (.validator name factory) => some (.put name factory)
  | unregister name => some (.drop name)
  | add (.type _ _) | unregisterType _ => none

def Update.typeEdit? : Update → Option (Edit Check)
  | add (.type name check) => some (.put name check)
  | unregisterType name => some (.drop name)
  | add (.validator _ _) | unregister _ => none

/-- Each table of a registry goes through its own edits. -/
theorem updateAll_eq (r : Registry) (updates : List Update) : r.updateAll updates =
    ⟨r.validators.editAll (updates.filterMap Update.validatorEdit?),
      r.types.editAll (updates.filterMap Update.typeEdit?)⟩ := by
  induction updates generalizing r with
  | nil => rfl
  | cons u updates ih =>
    have next : r.updateAll (u :: updates) = (r.update u).updateAll updates := rfl
    rw [next, ih]
    rcases u with ⟨_ | _⟩ | _ | _ <;> rfl

/-- How a list of names changes: a name that is there keeps its place, a new one goes to the end, and without one the
others stay in order. -/
structure Moves (names : List String) (entered left : String → List String) : Prop where
  keeps : ∀ name ∈ names, entered name = names
  appends : ∀ name ∉ names, entered name = names ++ [name]
  removes : ∀ name, left name = names.filter (· != name)

theorem moves {α : Type} (t : Table α) (a : α) :
    Moves t.keys (fun name => (t.insert name a).keys) fun name => (t.erase name).keys :=
  ⟨fun _ there => keys_insert_of_mem a there, fun _ absent => keys_insert_of_not_mem a absent,
    fun name => keys_erase t name⟩

/-- No name stands twice in the tables of a registry. -/
structure Distinct (r : Registry) : Prop where
  validators : r.validators.Distinct
  types : r.types.Distinct

theorem distinct_of_origin {start : Registry} (origin : start = empty ∨ start = builtin) : start.Distinct := by
  rcases origin with rfl | rfl
  · exact ⟨List.nodup_nil, List.nodup_nil⟩
  · exact ⟨by rw [Table.Distinct]; decide, by rw [Table.Distinct]; decide⟩

/-- What a registry shows of its validators and types is what became of them by the calls so far. -/
theorem recounts_updateAll {start : Registry} (distinct : start.Distinct) (updates : List Update) :
    Recounts (start.validators.origin ++ updates.filterMap Update.validatorEdit?)
        (start.updateAll updates).validatorNames (start.updateAll updates).factory? ∧
      Recounts (start.types.origin ++ updates.filterMap Update.typeEdit?)
        (start.updateAll updates).typeNames (start.updateAll updates).type? := by
  rw [updateAll_eq]
  exact ⟨(recounts_origin distinct.validators).editAll _, (recounts_origin distinct.types).editAll _⟩

theorem isSome_iff_mem {α : Type} (t : Table α) (name : String) : (t.get? name).isSome = decide (name ∈ t.keys) := by
  rw [Bool.eq_iff_iff, get?_isSome_iff, decide_eq_true_eq]

/-- A registry that was empty or built in at the start shows, after any calls, what these made of it: names in the order in
which their present stay began, and under each name what was last registered. -/
theorem registry_recounts {start : Registry} (origin : start = empty ∨ start = builtin) (updates : List Update) :
    let r := start.updateAll updates
    Recounts (start.validators.origin ++ updates.filterMap Update.validatorEdit?) r.validatorNames r.factory? ∧
    Recounts (start.types.origin ++ updates.filterMap Update.typeEdit?) r.typeNames r.type? ∧
    (∀ name, (r.contains name ↔ name ∈ r.validatorNames) ∧ ((r.factory? name).isSome ↔ name ∈ r.validatorNames) ∧
      r.withdraw name = (decide (name ∈ r.validatorNames), r.update (.unregister name))) ∧
    (∀ name, (r.containsType name ↔ name ∈ r.typeNames) ∧ ((r.type? name).isSome ↔ name ∈ r.typeNames) ∧
      r.withdrawType name = (decide (name ∈ r.typeNames), r.update (.unregisterType name))) ∧
    (∀ factory, Moves r.validatorNames (fun name => (r.register name factory).validatorNames) fun name =>
      (r.unregister name).validatorNames) ∧
    (∀ check, Moves r.typeNames (fun name => (r.registerType name check).typeNames) fun name =>
      (r.unregisterType name).typeNames) ∧
    (r.size = r.validatorNames.length ∧ (r.isEmpty ↔ r.validatorNames = [])) ∧
    ∀ u : Update, (u.validatorEdit? = none → (r.update u).validators = r.validators) ∧
      (u.typeEdit? = none → (r.update u).types = r.types) := by
  intro r
  obtain ⟨validators, types⟩ := recounts_updateAll (distinct_of_origin origin) updates
  refine ⟨validators, types, fun name => ⟨?_, ?_, ?_⟩, fun name => ⟨?_, ?_, ?_⟩,
    fun factory => moves r.validators factory, fun check => moves r.types check, ⟨?_, ?_⟩, fun u => ⟨?_, ?_⟩⟩
  · exact get?_isSome_iff
  · exact get?_isSome_iff
  · exact Prod.ext (isSome_iff_mem r.validators name) rfl
  · exact get?_isSome_iff
  · exact get?_isSome_iff
  · exact Prod.ext (isSome_iff_mem r.types name) rfl
  · exact (List.length_map _).symm
  · rw [isEmpty, validatorNames, keys, List.isEmpty_iff, List.map_eq_nil_iff]
  · rcases u with ⟨_ | _⟩ | _ | _ <;> simp [Update.validatorEdit?, update, add, registerType, unregisterType]
  · rcases u with ⟨_ | _⟩ | _ | _ <;> simp [Update.typeEdit?, update, add, register, unregister]

/-- Calls by which `schema` leaves and comes back, while `type` stays and is replaced. -/
def stallUpdates : List Update := [
  .add (.validator "ink" requiredFactory), .unregister "schema", .add (.type "colour" Check.identity),
  .add (.validator "type" requiredFactory), .add (.validator "schema" typeFactory), .unregisterType "colour"]

theorem stall_recounted : (builtin = empty ∨ builtin = builtin) ∧
    (builtin.updateAll stallUpdates).validatorNames = ["type", "required", "ink", "schema"] ∧
    (∃! position, BeganAt (builtin.validators.origin ++ stallUpdates.filterMap Update.validatorEdit?) "schema" position) ∧
    (builtin.updateAll stallUpdates).factory? "type" = some requiredFactory ∧
    "colour" ∉ (builtin.updateAll stallUpdates).typeNames ∧
    ((builtin.updateAll stallUpdates).withdrawType "colour").1 = false := by
  have listed : (builtin.updateAll stallUpdates).validatorNames = ["type", "required", "ink", "schema"] := rfl
  have absent : "colour" ∉ (builtin.updateAll stallUpdates).typeNames := by decide
  obtain ⟨validators, types, -, answers, -⟩ := registry_recounts (.inr rfl) stallUpdates
  refine ⟨.inr rfl, listed, validators.began "schema" (by rw [listed]; decide), validators.found "type", absent, ?_⟩
  rw [(answers "colour").2.2]
  exact decide_eq_false absent

end Registry

end Conform
