import Conform.Proofs.Grammar
import Conform.Proofs.Entries
import Conform.Proofs.Likeness
import Mathlib.Logic.Relation

/-!
# Relaxed specs

A spec is relaxed by letting null pass, or by no longer requiring a value, in itself or in the spec of a declared field.
What a spec takes its relaxed form takes as well, and makes the same of it (`report_looser`). A field that is no
longer required moves to another group, so the entries of an object may change their order.
-/

namespace Conform

/-- One relaxation of a spec, as data. -/
inductive Value.Relaxation : Value → Value → Prop
  | nullable (fields : Table Value) :
      Relaxation (.object fields) (.object (Table.insert fields "nullable" (.bool true)))
  | unrequired (fields : Table Value) : Relaxation (.object fields) (.object (Table.erase fields "required"))
  | falsy {fields : Table Value} {mark : Value} (marked : "required" ∈ Table.keys fields)
      (falsy : mark.truthy = false) : Relaxation (.object fields) (.object (Table.insert fields "required" mark))
  | field {fields entries : Table Value} {name : String} {t u : Value}
      (schema : Table.get? fields "schema" = some (.object entries)) (declared : Table.get? entries name = some t)
      (inner : Relaxation t u) :
      Relaxation (.object fields) (.object (Table.insert fields "schema" (.object (Table.insert entries name u))))

namespace Table

variable {α : Type}

theorem filter_insert {t : Table α} {key : String} (a : α) {p : String → Bool} :
    (insert t key a).filter (fun e => p e.1) =
      if p key then insert (t.filter fun e => p e.1) key a else t.filter fun e => p e.1 := by
  induction t with
  | nil => cases kept : p key <;> simp [kept]
  | cons first t ih =>
    obtain ⟨k, b⟩ := first
    by_cases here : k = key
    · subst here
      cases kept : p k <;> simp [insert_cons, kept]
    · have step : insert ((k, b) :: t) key a = (k, b) :: insert t key a := by simp [insert_cons, here]
      rw [step, List.filter_cons, List.filter_cons, ih]
      cases p k <;> cases p key <;> simp [insert_cons, here]

theorem get?_filter {t : Table α} {key : String} {p : String → Bool} (kept : p key) :
    get? (t.filter fun e => p e.1) key = get? t key := by
  induction t with
  | nil => rfl
  | cons first t ih =>
    obtain ⟨k, b⟩ := first
    by_cases here : k = key
    · subst here
      rw [List.filter_cons, if_pos kept, get?_cons, if_pos rfl, get?_cons, if_pos rfl]
    · rw [get?_cons, if_neg here, List.filter_cons]
      split
      · rw [get?_cons, if_neg here, ih]
      · exact ih

theorem forall₂_insert {related : α → α → Prop} (refl : ∀ b, related b b) {t : Table α} {key : String} {a b : α}
    (present : get? t key = some a) (replaced : related a b) :
    List.Forall₂ (fun e f => e.1 = f.1 ∧ related e.2 f.2) t (insert t key b) := by
  induction t with
  | nil => cases present
  | cons first t ih =>
    obtain ⟨k, c⟩ := first
    have rest : List.Forall₂ (fun e f => e.1 = f.1 ∧ related e.2 f.2) t t :=
      List.forall₂_same.mpr fun e _ => ⟨rfl, refl e.2⟩
    by_cases here : k = key
    · rw [get?_cons, if_pos here, Option.some.injEq] at present
      subst present
      rw [insert_cons, if_pos here]
      exact .cons ⟨here, replaced⟩ rest
    · rw [get?_cons, if_neg here] at present
      rw [insert_cons, if_neg here]
      exact .cons ⟨rfl, refl c⟩ (ih present)

end Table

/-! ### A relaxed spec is a spec -/

namespace Value

theorem distinct_insert {fields : Table Value} {x : Value} (key : String) (distinct : (object fields).Distinct)
    (added : x.Distinct) : (object (Table.insert fields key x)).Distinct := by
  refine ⟨Table.distinct_insert key x distinct.1, distinctFields_iff.mpr fun e member => ?_⟩
  rcases Table.mem_of_mem_insert member with rfl | old
  · exact added
  · exact distinctFields_iff.mp distinct.2 e old

theorem distinct_of_falsy {v : Value} (falsy : v.truthy = false) : v.Distinct := by
  cases v <;> simp [truthy, Distinct] at falsy ⊢

theorem Relaxation.distinct {v w : Value} (relaxed : Relaxation v w) (distinct : v.Distinct) : w.Distinct := by
  induction relaxed with
  | nullable fields => exact distinct_insert "nullable" distinct trivial
  | unrequired fields =>
    refine ⟨Table.distinct_erase _ distinct.1, distinctFields_iff.mpr fun e member => ?_⟩
    exact distinctFields_iff.mp distinct.2 e (List.mem_filter.mp member).1
  | falsy _ falsy => exact distinct_insert "required" distinct (distinct_of_falsy falsy)
  | @field fields entries name t u schema declared _ ih =>
    have nested : (object entries).Distinct := distinctFields_iff.mp distinct.2 _ (Table.mem_of_get? schema)
    have inner : u.Distinct := ih (distinctFields_iff.mp nested.2 _ (Table.mem_of_get? declared))
    exact distinct_insert "schema" distinct (distinct_insert name nested inner)

theorem IsEntry.schema_specs {argument : Value} (entry : IsEntry "schema" argument) :
    ∃ fields, argument = .object fields ∧ ∀ name v, (name, v) ∈ fields → IsSpec v := by
  generalize key : "schema" = k at entry
  cases entry with
  | schema specs => exact ⟨_, rfl, specs⟩
  | _ => simp at key

theorem IsSpec.declared {fields entries : Table Value} {name : String} {v : Value} (spec : (Value.object fields).IsSpec)
    (schema : Table.get? fields "schema" = some (.object entries)) (member : (name, v) ∈ entries) : v.IsSpec := by
  cases spec with
  | object _ inner =>
    obtain ⟨_, same, specs⟩ := (inner _ _ (Table.mem_of_get? schema)).schema_specs
    cases same
    exact specs name v member

theorem IsSpec.insert {fields : Table Value} {key : String} {x : Value} (spec : (Value.object fields).IsSpec)
    (entry : IsEntry key x) (setting : key = "nullable" → ∃ b, x = .bool b) :
    (Value.object (Table.insert fields key x)).IsSpec := by
  cases spec with
  | object nullable entries =>
    refine .object ?_ fun k argument member => ?_
    · intro v found
      by_cases here : "nullable" = key
      · subst here
        rw [Table.get?_insert_same, Option.some.injEq] at found
        subst found
        exact .inr (setting rfl)
      · rw [Table.get?_insert_other _ _ here] at found
        exact nullable v found
    · rcases Table.mem_of_mem_insert member with same | old
      · cases same
        exact entry
      · exact entries k argument old

theorem Relaxation.isSpec {v w : Value} (relaxed : Relaxation v w) (spec : v.IsSpec) : w.IsSpec := by
  induction relaxed with
  | nullable fields => exact spec.insert (.nullable _) fun _ => ⟨true, rfl⟩
  | unrequired fields =>
    cases spec with
    | object nullable entries =>
      refine .object ?_ fun key argument member => entries key argument (List.mem_filter.mp member).1
      intro v found
      rw [Table.get?_erase_other _ (by decide)] at found
      exact nullable v found
  | falsy _ _ => exact spec.insert (.required _) (by simp)
  | @field fields entries name t u schema declared _ ih =>
    refine spec.insert (.schema fun key v member => ?_) (by simp)
    rcases Table.mem_of_mem_insert member with same | old
    · cases same
      exact ih (spec.declared schema (Table.mem_of_get? declared))
    · exact spec.declared schema old

end Value

/-! ### What a relaxed spec answers -/

namespace Spec

/-- What `s` takes `t` takes as well, and makes the same of it if it is not null. -/
structure Looser (s t : Spec) : Prop where
  default : t.default = s.default
  nullable : s.nullable → t.nullable
  required : t.isRequired → s.isRequired
  answers : ∀ check, (Registry.builtin.compile s).result = .ok check →
    ∀ other, (Registry.builtin.compile t).result = .ok other →
    ∀ v w, v.isNull = false → check.answer? v = some w → ∃ u, other.answer? v = some u ∧ w.Alike u

theorem Looser.refl (s : Spec) : s.Looser s := by
  refine ⟨rfl, id, id, fun check compiled other same v w _ answered => ?_⟩
  obtain rfl : check = other := Except.ok.inj (compiled.symm.trans same)
  exact ⟨w, answered, .refl w⟩

theorem Looser.answer?_null {s t : Spec} {check other : Check} (looser : s.Looser t) (formed : s.WellFormed)
    (formedOther : t.WellFormed) (compiled : (Registry.builtin.compile s).result = .ok check)
    (compiledOther : (Registry.builtin.compile t).result = .ok other) {w : Value}
    (answered : check.answer? .null = some w) :
    ∃ u, other.answer? .null = some u ∧ (s.default = none → u = w) := by
  have stands := looser.nullable
  rw [Spec.answer?_null formed compiled] at answered
  rw [Spec.answer?_null formedOther compiledOther, looser.default]
  cases nullable : s.nullable <;> simp only [nullable, if_true, Bool.false_eq_true, if_false] at answered stands
  · rw [answered]
    cases t.nullable
    · exact ⟨w, rfl, nofun⟩
    · exact ⟨.null, rfl, nofun⟩
  · rw [if_pos (stands trivial)]
    exact ⟨.null, rfl, fun _ => Option.some.inj answered⟩

end Spec

namespace Field

variable {name : String} {s t : Spec} {check other : Check}

/-- A field without errors has none under a relaxed spec, and the same entry. -/
theorem report_looser (looser : s.Looser t) (formed : s.WellFormed) (formedOther : t.WellFormed)
    (compiled : (Registry.builtin.compile s).result = .ok check)
    (compiledOther : (Registry.builtin.compile t).result = .ok other) {input : Table Value}
    (clean : ((ofSpec name s check).report input).2 = []) :
    ((ofSpec name t other).report input).2 = [] ∧
    List.Forall₂ (fun e f => e.1 = f.1 ∧ e.2.Alike f.2)
      ((ofSpec name s check).entry ((ofSpec name s check).report input).1)
      ((ofSpec name t other).entry ((ofSpec name t other).report input).1) := by
  have optional : (ofSpec name s check).kind.isOptional → (ofSpec name t other).kind.isOptional := by
    have required := looser.required
    simp only [ofSpec, FieldKind.isOptional_ofSpec, looser.default]
    grind
  cases given : (ofSpec name s check).given? input with
  | some v =>
    obtain ⟨found, runs⟩ := given?_eq_some_iff.mp given
    have givenOther : (ofSpec name t other).given? input = some v :=
      given?_eq_some_iff.mpr ⟨found, fun null => optional (runs null)⟩
    rw [clean_iff, given] at clean
    obtain ⟨w, answered⟩ := Option.isSome_iff_exists.mp clean
    have same : ∃ u, other.answer? v = some u ∧ w.Alike u := by
      cases null : v.isNull with
      | false => exact looser.answers check compiled other compiledOther v w null answered
      | true =>
        obtain rfl := Value.eq_null_of_isNull null
        have kind := runs rfl
        simp only [ofSpec, FieldKind.isOptional_ofSpec, Bool.and_eq_true] at kind
        obtain ⟨u, answeredOther, equal⟩ := looser.answer?_null formed formedOther compiled compiledOther answered
        exact ⟨u, answeredOther, equal (Option.isNone_iff_eq_none.mp kind.2) ▸ .refl u⟩
    obtain ⟨u, answeredOther, alike⟩ := same
    refine ⟨?_, ?_⟩
    · rw [clean_iff, givenOther]
      exact Option.isSome_of_eq_some answeredOther
    · rw [value_of_given given answered, value_of_given givenOther answeredOther]
      exact .cons ⟨rfl, alike⟩ .nil
  | none =>
    have unmarked : s.isRequired = false := by
      rw [clean_iff, given] at clean
      exact (FieldKind.isRequired_ofSpec s).symm.trans clean
    have unmarkedOther : t.isRequired = false := by
      have required := looser.required
      grind
    have kind : (ofSpec name t other).kind = (ofSpec name s check).kind := by
      simp only [ofSpec, FieldKind.ofSpec, unmarked, unmarkedOther, looser.default]
    have givenOther : (ofSpec name t other).given? input = none := by
      rw [given?_eq_none_iff] at given ⊢
      rw [kind]
      exact given
    have same : (ofSpec name t other).report input = (ofSpec name s check).report input :=
      report_of_not_given rfl kind givenOther given
    rw [same]
    exact ⟨clean, List.forall₂_same.mpr fun e _ => ⟨rfl, .refl e.2⟩⟩

end Field

/-! ### Schemas -/

theorem Value.Alike.of_perm {a b : Table Value} (distinct : Table.Distinct a) (perm : a.Perm b) :
    (Value.object a).Alike (.object b) := by
  refine .object (perm.map _) fun key x y left right => ?_
  have first := perm.mem_iff.mp (Table.mem_of_get? left)
  have nodup : (b.map (·.1)).Nodup := (perm.map _).nodup_iff.mp distinct
  have same : (key, x) = (key, y) := List.inj_on_of_nodup_map nodup first (Table.mem_of_get? right) rfl
  cases same
  exact .refl x

namespace Schema

theorem keys_entries_sublist (fields : List Field) (input : Table Value) :
    (Table.keys (entries fields input)).Sublist (fields.map (·.name)) := by
  induction fields with
  | nil => exact .slnil
  | cons f fields ih =>
    have split : Table.keys (entries (f :: fields) input) =
        Table.keys (f.entry (f.report input).1) ++ Table.keys (entries fields input) := by
      simp [entries, Table.keys]
    rw [split, Field.keys_entry]
    split
    · exact ih.cons_cons f.name
    · exact ih.cons f.name

/-- It makes no difference to the entries of an object in which order its fields are visited, but for their order. -/
theorem alike_ordered {fields : List Field} (names : (fields.map (·.name)).Nodup) (input : Table Value) :
    (Value.object (entries (ordered fields) input)).Alike (.object (entries fields input)) := by
  have visited : ((ordered fields).map (·.name)).Nodup := ((ordered_perm fields).map _).nodup_iff.mpr names
  exact .of_perm (visited.sublist (keys_entries_sublist _ input)) ((ordered_perm fields).flatMap_right _)

end Schema

/-! ### Relaxing keeps what is answered -/

namespace Spec

theorem entries_looser {declared other : Table Spec} {fields others : List Field} {input : Table Value}
    (looser : List.Forall₂ (fun e f => e.1 = f.1 ∧ e.2.Looser f.2) declared other)
    (compiles : List.Forall₂ Field.Compiles declared fields) (compilesOther : List.Forall₂ Field.Compiles other others)
    (formed : ∀ e ∈ declared, e.2.WellFormed) (formedOther : ∀ e ∈ other, e.2.WellFormed)
    (clean : ∀ f ∈ fields, (f.report input).2 = []) :
    (∀ g ∈ others, (g.report input).2 = []) ∧
    List.Forall₂ (fun e f => e.1 = f.1 ∧ e.2.Alike f.2) (Schema.entries fields input)
      (Schema.entries others input) := by
  induction looser generalizing fields others with
  | nil =>
    cases compiles
    cases compilesOther
    exact ⟨nofun, .nil⟩
  | @cons e f declared other pair _ ih =>
    cases compiles with | cons first rest
    cases compilesOther with | cons firstOther restOther
    obtain ⟨name, s⟩ := e
    obtain ⟨_, t⟩ := f
    obtain ⟨rfl, looser⟩ := pair
    obtain ⟨check, compiled, rfl⟩ := first
    obtain ⟨checkOther, compiledOther, rfl⟩ := firstOther
    simp only [List.forall_mem_cons] at formed formedOther clean ⊢
    have here := Field.report_looser looser formed.1 formedOther.1 compiled compiledOther clean.1
    have later := ih rest restOther formed.2 formedOther.2 clean.2
    exact ⟨⟨here.1, later.1⟩, List.rel_append here.2 later.2⟩

theorem schema_looser {declared other : Table Spec} {fields others : List Field}
    (looser : List.Forall₂ (fun e f => e.1 = f.1 ∧ e.2.Looser f.2) declared other)
    (compiles : List.Forall₂ Field.Compiles declared fields) (compilesOther : List.Forall₂ Field.Compiles other others)
    (distinct : Table.Distinct declared) (distinctOther : Table.Distinct other)
    (formed : ∀ e ∈ declared, e.2.WellFormed) (formedOther : ∀ e ∈ other, e.2.WellFormed) {v w : Value}
    (answered : (Schema.check fields).answer? v = some w) :
    ∃ u, (Schema.check others).answer? v = some u ∧ w.Alike u := by
  obtain ⟨input, rfl, clean, rfl⟩ :=
    (Schema.answer?_eq_some_iff (Field.regular_of_compiles compiles)).mp answered
  obtain ⟨cleanOther, pairs⟩ := entries_looser looser compiles compilesOther formed formedOther clean
  refine ⟨_, (Schema.answer?_eq_some_iff (Field.regular_of_compiles compilesOther)).mpr
    ⟨input, rfl, cleanOther, rfl⟩, ?_⟩
  have names : (fields.map (·.name)).Nodup := names_of_compiles compiles ▸ distinct
  have namesOther : (others.map (·.name)).Nodup := names_of_compiles compilesOther ▸ distinctOther
  have first := Schema.alike_ordered names input
  have last := Schema.alike_ordered namesOther input
  exact (first.trans (.of_forall₂ pairs)).trans last.symm

/-- A spec is looser if its settings are, and its fields one by one. -/
theorem Looser.intro {s t : Spec} (formed : s.WellFormed) (formedOther : t.WellFormed) (type : t.type? = s.type?)
    (last : t.typeComesLast = s.typeComesLast) (default : t.default = s.default) (nullable : s.nullable → t.nullable)
    (required : t.isRequired → s.isRequired)
    (fields : t.fields? = s.fields? ∨ ∃ declared other, s.fields? = some declared ∧ t.fields? = some other ∧
      List.Forall₂ (fun e f => e.1 = f.1 ∧ e.2.Looser f.2) declared other) : s.Looser t := by
  refine ⟨default, nullable, required, fun check compiled other compiledOther v w present answered => ?_⟩
  obtain ⟨checked, compiles, answers⟩ := answer?_of_compile formed compiled
  obtain ⟨checkedOther, compilesOther, answersOther⟩ := answer?_of_compile formedOther compiledOther
  have regular := Field.regular_of_compiles compiles
  have regularOther := Field.regular_of_compiles compilesOther
  rw [answers, if_neg (by simp [present])] at answered
  rw [answersOther, if_neg (by simp [present])]
  have pairs : (s.fields? = none ∧ t.fields? = none) ∨ ∃ declared other, s.fields? = some declared ∧
      t.fields? = some other ∧ List.Forall₂ (fun e f => e.1 = f.1 ∧ e.2.Looser f.2) declared other := by
    rcases fields with same | pairs
    · cases nested : s.fields? with
      | none => exact .inl ⟨rfl, same.trans nested⟩
      | some declared =>
        have same := same.trans nested
        exact .inr ⟨declared, declared, rfl, same, List.forall₂_same.mpr fun e _ => ⟨rfl, .refl e.2⟩⟩
    · exact .inr pairs
  rcases pairs with ⟨plain, plainOther⟩ | ⟨declared, other, nested, nestedOther, looser⟩
  · rw [answer?_plain plain] at answered
    rw [answer?_plain plainOther, type]
    exact ⟨w, answered, .refl w⟩
  · rw [nested, Option.getD_some] at compiles
    rw [nestedOther, Option.getD_some] at compilesOther
    obtain ⟨beside, x, schema, made⟩ := (answer?_nested_iff regular nested).mp answered
    obtain ⟨y, schemaOther, alike⟩ := schema_looser looser compiles compilesOther (formed.fields nested)
      (formedOther.fields nestedOther) (fun e member => formed.field nested member)
      (fun e member => formedOther.field nestedOther member) schema
    simp only [answer?_nested_iff regularOther nestedOther, type, last]
    refine ⟨_, ⟨beside, y, schemaOther, rfl⟩, ?_⟩
    rw [made]
    split
    · exact .refl _
    · exact alike

/-! ### From one relaxation to any number -/

theorem ofValue_object_iff {fields : Table Value} {s : Spec} :
    ofValue (.object fields) = .ok s ↔ nullableSetting (Table.get? fields nullableKey) = .ok s.nullable ∧
      s.entries = fields.filter (fun e => !isReserved e.1) ∧
      s.default = (Table.get? fields defaultKey).bind Value.present? := by
  obtain ⟨entries, nullable, default⟩ := s
  simp only [ofValue, ofFields]
  cases nullableSetting (Table.get? fields nullableKey) with
  | error e => simp
  | ok setting => simp only [Except.ok.injEq, Spec.mk.injEq]; grind

/-- What a spec declares is told by its entries without the mark. -/
theorem declares_eq {s t : Spec} (same : Table.erase t.entries "required" = Table.erase s.entries "required") :
    t.type? = s.type? ∧ t.typeComesLast = s.typeComesLast ∧ t.fields? = s.fields? := by
  rw [← type?_unmarked t, ← type?_unmarked s, ← fields?_unmarked t, ← fields?_unmarked s, ← typeComesLast_unmarked t,
    ← typeComesLast_unmarked s]
  simp only [type?, fields?, typeComesLast, argument?, unmarked, same, and_self]

theorem get?_readAll {entries : Table Value} {name : String} {v : Value} {s : Spec}
    (present : Table.get? entries name = some v) (read : ofValue v = .ok s) :
    Table.get? (readAll entries) name = some s := by
  induction entries with
  | nil => cases present
  | cons e entries ih =>
    obtain ⟨key, x⟩ := e
    by_cases here : key = name
    · rw [Table.get?_cons, if_pos here, Option.some.injEq] at present
      subst present
      rw [readAll_cons read, Table.get?_cons, if_pos here]
    · rw [Table.get?_cons, if_neg here] at present
      cases other : ofValue x with
      | error e => rw [readAll_cons_of_error other, ih present]
      | ok u => rw [readAll_cons other, Table.get?_cons, if_neg here, ih present]

theorem readAll_insert {entries : Table Value} {name : String} {v w : Value} {s t : Spec}
    (present : Table.get? entries name = some v) (read : ofValue v = .ok s) (readOther : ofValue w = .ok t) :
    readAll (Table.insert entries name w) = Table.insert (readAll entries) name t := by
  induction entries with
  | nil => cases present
  | cons e entries ih =>
    obtain ⟨key, x⟩ := e
    by_cases here : key = name
    · rw [Table.get?_cons, if_pos here, Option.some.injEq] at present
      subst present
      rw [Table.insert_cons, if_pos here, readAll_cons read, readAll_cons readOther, Table.insert_cons, if_pos here]
    · rw [Table.get?_cons, if_neg here] at present
      rw [Table.insert_cons, if_neg here]
      cases other : ofValue x with
      | error e => rw [readAll_cons_of_error other, readAll_cons_of_error other, ih present]
      | ok u => rw [readAll_cons other, readAll_cons other, Table.insert_cons, if_neg here, ih present]

theorem read_of_isSpec {v : Value} (spec : v.IsSpec) :
    ∃ s check, ofValue v = .ok s ∧ (Registry.builtin.compile s).result = .ok check := by
  have stops := Registry.stopsAt_compileValue v
  rw [(isSpec_iff v).mp spec] at stops
  obtain ⟨check, compiled⟩ := stops
  obtain ⟨s, read, compiled⟩ := Registry.compileValue_ok_iff.mp compiled
  exact ⟨s, check, read, compiled⟩

theorem isRequired_of_argument {s t : Spec} (same : t.argument? "required" = s.argument? "required") :
    t.isRequired → s.isRequired := by
  rw [isRequired, isRequired, same]
  exact id

/-- The entries of a changed field, of a key that is no setting. -/
theorem entries_insert {fields : Table Value} {key : String} {x : Value} {s t : Spec} (plain : isReserved key = false)
    (read : ofValue (.object fields) = .ok s) (readOther : ofValue (.object (Table.insert fields key x)) = .ok t) :
    t.entries = Table.insert s.entries key x ∧ t.nullable = s.nullable ∧ t.default = s.default := by
  obtain ⟨nullable, entries, default⟩ := ofValue_object_iff.mp read
  obtain ⟨nullableOther, entriesOther, defaultOther⟩ := ofValue_object_iff.mp readOther
  simp only [isReserved, Bool.or_eq_false_iff, beq_eq_false_iff_ne] at plain
  rw [Table.get?_insert_other _ _ plain.1.symm, nullable, Except.ok.injEq] at nullableOther
  rw [Table.get?_insert_other _ _ plain.2.symm, ← default] at defaultOther
  refine ⟨?_, nullableOther.symm, defaultOther⟩
  have filtered := @Table.filter_insert Value fields key x fun k => !isReserved k
  rw [entriesOther, filtered, entries, if_pos (by simp [isReserved, plain])]

/-- The induction is on the relaxation, as it goes into declared fields. -/
theorem looser_of_relaxation {v w : Value} (relaxed : v.Relaxation w) (distinct : v.Distinct) (spec : v.IsSpec)
    {s t : Spec} (read : ofValue v = .ok s) (readOther : ofValue w = .ok t) : s.Looser t := by
  have formed := wellFormed_ofValue distinct read
  have formedOther := wellFormed_ofValue (relaxed.distinct distinct) readOther
  induction relaxed generalizing s t with
  | nullable fields =>
    obtain ⟨nullable, entries, default⟩ := ofValue_object_iff.mp read
    obtain ⟨nullableOther, entriesOther, defaultOther⟩ := ofValue_object_iff.mp readOther
    rw [Table.get?_insert_other _ _ (by decide)] at defaultOther
    have same : t.entries = s.entries := by
      rw [entries, entriesOther]
      exact @Table.filter_insert Value fields "nullable" (.bool true) fun key => !isReserved key
    obtain ⟨type, last, declared⟩ := declares_eq (congrArg (Table.erase · "required") same)
    refine .intro formed formedOther type last (defaultOther.trans default.symm) (fun _ => ?_) ?_ (.inl declared)
    · rw [show nullableKey = "nullable" from rfl, Table.get?_insert_same] at nullableOther
      exact (Except.ok.inj nullableOther).symm
    · exact isRequired_of_argument (by rw [argument?, argument?, same])
  | unrequired fields =>
    obtain ⟨nullable, entries, default⟩ := ofValue_object_iff.mp read
    obtain ⟨nullableOther, entriesOther, defaultOther⟩ := ofValue_object_iff.mp readOther
    rw [Table.get?_erase_other _ (by decide), nullable, Except.ok.injEq] at nullableOther
    rw [Table.get?_erase_other _ (by decide), ← default] at defaultOther
    have erased : t.entries = Table.erase s.entries "required" := by
      rw [entries, entriesOther, Table.erase, Table.erase, List.filter_comm]
    obtain ⟨type, last, declared⟩ : _ ∧ _ ∧ t.fields? = s.fields? :=
      declares_eq (by simp only [erased, Table.erase, List.filter_filter, Bool.and_self])
    refine .intro formed formedOther type last defaultOther (nullableOther ▸ id) ?_ (.inl declared)
    simp [isRequired, argument?, erased, Table.get?_erase_same]
  | @falsy fields mark _ falsy =>
    obtain ⟨entries, nullable, default⟩ := entries_insert (by decide) read readOther
    have same : Table.erase t.entries "required" = Table.erase s.entries "required" := by
      rw [entries]
      exact @Table.filter_insert Value s.entries "required" mark fun key => key != "required"
    obtain ⟨type, last, declared⟩ := declares_eq same
    refine .intro formed formedOther type last default (nullable ▸ id) ?_ (.inl declared)
    simp [isRequired, argument?, entries, Table.get?_insert_same, falsy]
  | @field fields specs name u w schema declared inner ih =>
    obtain ⟨entries, nullable, default⟩ := entries_insert (by decide) read readOther
    have present : s.argument? "schema" = some (.object specs) := by
      rw [argument?, (ofValue_object_iff.mp read).2.1]
      exact (@Table.get?_filter Value fields "schema" (fun key => !isReserved key) (by decide)).trans schema
    have presentOther : t.argument? "schema" = some (.object (Table.insert specs name w)) := by
      rw [argument?, entries, Table.get?_insert_same]
    have type : t.type? = s.type? := by
      rw [type?, type?, argument?, argument?, entries, Table.get?_insert_other _ _ (by decide)]
    have last : t.typeComesLast = s.typeComesLast := by
      rw [typeComesLast, typeComesLast, entries, Table.keys_insert_of_mem]
      exact List.mem_map_of_mem (Table.mem_of_get? present)
    have required : t.isRequired → s.isRequired := by
      refine isRequired_of_argument ?_
      rw [argument?, argument?, entries, Table.get?_insert_other _ _ (by decide)]
    have nested : (Value.object specs).Distinct := Value.distinctFields_iff.mp distinct.2 _ (Table.mem_of_get? schema)
    have distinctInner := Value.distinctFields_iff.mp nested.2 _ (Table.mem_of_get? declared)
    have specInner := spec.declared schema (Table.mem_of_get? declared)
    obtain ⟨a, -, readInner, -⟩ := read_of_isSpec specInner
    obtain ⟨b, -, readInnerOther, -⟩ := read_of_isSpec (inner.isSpec specInner)
    have looser := ih distinctInner specInner readInner readInnerOther (wellFormed_ofValue distinctInner readInner)
      (wellFormed_ofValue (inner.distinct distinctInner) readInnerOther)
    refine .intro formed formedOther type last default (nullable ▸ id) required (.inr ⟨_, _, fields?_eq_some present,
      fields?_eq_some presentOther, ?_⟩)
    rw [readAll_insert declared readInner readInnerOther]
    exact Table.forall₂_insert Looser.refl (get?_readAll declared readInner) looser

end Spec

namespace Validate

/-- A spec relaxed any number of times still compiles, and takes what it took: null, or a value it makes the same of. -/
theorem relaxed_accepts {spec relaxed : Value} (distinct : spec.Distinct) {check : Check}
    (compiled : (Registry.builtin.compileValue spec).result = .ok check)
    (changes : Relation.ReflTransGen Value.Relaxation spec relaxed) :
    ∃ other, (Registry.builtin.compileValue relaxed).result = .ok other ∧
      ∀ v w, all check v = .ok w → ∃ u, all other v = .ok u ∧ (v.isNull = false → w.Alike u) := by
  have spec : spec.IsSpec :=
    (Spec.isSpec_iff spec).mpr ((Registry.stopsAt_compileValue spec).ok_iff.mp ⟨check, compiled⟩)
  suffices held : relaxed.Distinct ∧ relaxed.IsSpec ∧
      ∃ other, (Registry.builtin.compileValue relaxed).result = .ok other ∧
        ∀ v w, all check v = .ok w → ∃ u, all other v = .ok u ∧ (v.isNull = false → w.Alike u) from held.2.2
  induction changes with
  | refl => exact ⟨distinct, spec, check, compiled, fun v w accepted => ⟨w, accepted, fun _ => .refl w⟩⟩
  | @tail middle last _ step ih =>
    obtain ⟨distinct, spec, other, compiledOther, accepts⟩ := ih
    have distinctLast := step.distinct distinct
    have specLast := step.isSpec spec
    obtain ⟨s, read, compiledSpec⟩ := Registry.compileValue_ok_iff.mp compiledOther
    obtain ⟨t, final, readLast, compiledLast⟩ := Spec.read_of_isSpec specLast
    have looser := Spec.looser_of_relaxation step distinct spec read readLast
    have formed := Spec.wellFormed_ofValue distinct read
    have formedLast := Spec.wellFormed_ofValue distinctLast readLast
    have regular : other.Regular := hereditary_regular.compile_builtin s compiledSpec
    have regularLast : final.Regular := hereditary_regular.compile_builtin t compiledLast
    refine ⟨distinctLast, specLast, final, Registry.compileValue_ok_iff.mpr ⟨t, readLast, compiledLast⟩, ?_⟩
    intro v w accepted
    obtain ⟨u, acceptedOther, alike⟩ := accepts v w accepted
    have answered := regular.all_ok_iff.mp acceptedOther
    simp only [regularLast.all_ok_iff]
    cases null : v.isNull with
    | false =>
      obtain ⟨x, answeredLast, same⟩ := looser.answers other compiledSpec final compiledLast v u null answered
      exact ⟨x, answeredLast, fun present => (alike (null.trans present.symm ▸ null)).trans same⟩
    | true =>
      obtain rfl := Value.eq_null_of_isNull null
      obtain ⟨x, answeredLast, -⟩ := looser.answer?_null formed formedLast compiledSpec compiledLast answered
      exact ⟨x, answeredLast, nofun⟩

def addressSpec (town : Table Value) : Value :=
  .object [("required", .bool true), ("schema", .object [("town", .object town)])]

/-- A letter of a writer to a town. -/
def letterSpec (mark : Value) (writer town : Table Value) : Value :=
  .object [("required", mark), ("schema", .object [("from", .object writer), ("to", addressSpec town)])]

/-- A letter, all of it asked for. -/
def signedSpec : Value :=
  letterSpec (.bool true) [("type", .string "string"), ("required", .string "yes")] [("required", .bool true)]

/-- A letter that need not be there, nor say who wrote it, to a town or none. -/
def draftSpec : Value :=
  letterSpec (.bool false) [("type", .string "string")] [("required", .bool true), ("nullable", .bool true)]

theorem signedSpec_relaxes : Relation.ReflTransGen Value.Relaxation signedSpec draftSpec := by
  have optional : ∀ writer town,
      (letterSpec (.bool true) writer town).Relaxation (letterSpec (.bool false) writer town) :=
    fun _ _ => .falsy (.head _) rfl
  have inside : ∀ mark writer town name v w,
      Table.get? [("from", .object writer), ("to", addressSpec town)] name = some v → v.Relaxation w →
      (letterSpec mark writer town).Relaxation (.object [("required", mark),
        ("schema", .object (Table.insert [("from", .object writer), ("to", addressSpec town)] name w))]) :=
    fun _ _ _ _ _ _ declared inner => .field rfl declared inner
  have anywhere : ∀ town, (addressSpec town).Relaxation (addressSpec (Table.insert town "nullable" (.bool true))) :=
    fun town => @Value.Relaxation.field _ [("town", .object town)] "town" _ _ rfl rfl (.nullable town)
  refine .tail (.tail (.single (optional _ _)) (inside _ _ _ "from" _ _ rfl (.unrequired _))) ?_
  exact inside _ _ _ "to" _ _ rfl (anywhere _)

/-- The letter comes with its town first, and its writer last. -/
theorem letter_accepted_as_draft : signedSpec.Distinct ∧
    ∃ check, (Registry.builtin.compileValue signedSpec).result = .ok check ∧
      Relation.ReflTransGen Value.Relaxation signedSpec draftSpec ∧
      ∃ other, (Registry.builtin.compileValue draftSpec).result = .ok other ∧
        ∃ u, all other (.object [("to", .object [("town", .string "Ghent")]), ("from", .string "Ada")]) = .ok u ∧
          (Value.object [("from", .string "Ada"), ("to", .object [("town", .string "Ghent")])]).Alike u := by
  have distinct : signedSpec.Distinct := by
    simp [signedSpec, letterSpec, addressSpec, Value.Distinct, Value.DistinctFields, Table.Distinct, Table.keys]
  obtain ⟨other, compiled, accepts⟩ := relaxed_accepts distinct rfl signedSpec_relaxes
  refine ⟨distinct, _, rfl, signedSpec_relaxes, other, compiled, ?_⟩
  obtain ⟨u, accepted, alike⟩ :=
    accepts (.object [("to", .object [("town", .string "Ghent")]), ("from", .string "Ada")]) _ rfl
  exact ⟨u, accepted, alike rfl⟩

end Validate

end Conform
