import Conform.Proofs.Report

/-!
# Values but for the order of fields

Two values are alike if they differ in the order of fields alone, at any depth. Coercion and validation by a leaf type
keep that, since the text of an object names none of its fields (`LeafType.report_alike`).
-/

namespace Conform

/-- The same data, with the fields of objects in any order. -/
inductive Value.Alike : Value → Value → Prop
  | refl (v : Value) : Alike v v
  | array {a b : List Value} (count : a.length = b.length)
      (items : ∀ (i : Nat) x y, a[i]? = some x → b[i]? = some y → Alike x y) : Alike (.array a) (.array b)
  | object {a b : Table Value} (keys : (Table.keys a).Perm (Table.keys b))
      (fields : ∀ key x y, Table.get? a key = some x → Table.get? b key = some y → Alike x y) :
      Alike (.object a) (.object b)

theorem Table.get?_isSome_iff {α : Type} {t : Table α} {key : String} : (get? t key).isSome ↔ key ∈ t.keys := by
  rw [← not_iff_not, ← get?_eq_none_iff, Option.not_isSome_iff_eq_none]

namespace Value

namespace Alike

theorem symm {v w : Value} (alike : v.Alike w) : w.Alike v := by
  induction alike with
  | refl v => exact .refl v
  | array count _ ih => exact .array count.symm fun i x y left right => ih i y x right left
  | object keys _ ih => exact .object keys.symm fun key x y left right => ih key y x right left

theorem trans {u v w : Value} (first : u.Alike v) (second : v.Alike w) : u.Alike w := by
  induction first generalizing w with
  | refl => exact second
  | @array a b count items ih =>
    cases second with
    | refl => exact .array count items
    | @array _ c more later =>
      refine .array (count.trans more) fun i x z left right => ?_
      have short : i < b.length := by
        obtain ⟨inside, _⟩ := List.getElem?_eq_some_iff.mp left
        omega
      have middle : b[i]? = some b[i] := List.getElem?_eq_getElem short
      exact ih i x _ left middle (later i _ z middle right)
  | @object a b keys fields ih =>
    cases second with
    | refl => exact .object keys fields
    | @object _ c more later =>
      refine .object (keys.trans more) fun key x z left right => ?_
      have present : key ∈ Table.keys b := keys.mem_iff.mp (Table.get?_isSome_iff.mp (by simp [left]))
      obtain ⟨y, middle⟩ := Option.isSome_iff_exists.mp (Table.get?_isSome_iff.mpr present)
      exact ih key x y left middle (later key y z middle right)

theorem isNull_eq {v w : Value} (alike : v.Alike w) : v.isNull = w.isNull := by
  cases alike <;> rfl

theorem of_forall₂ {a b : Table Value} (pairs : List.Forall₂ (fun e f => e.1 = f.1 ∧ e.2.Alike f.2) a b) :
    (Value.object a).Alike (.object b) := by
  have keys : Table.keys a = Table.keys b := by
    induction pairs with
    | nil => rfl
    | cons pair _ ih => exact congrArg₂ List.cons pair.1 ih
  refine .object (.of_eq keys) ?_
  clear keys
  induction pairs with
  | nil => simp
  | @cons e f a b pair _ ih =>
    obtain ⟨k, v⟩ := e
    obtain ⟨l, w⟩ := f
    obtain ⟨same, alike⟩ := pair
    obtain rfl : k = l := same
    intro key x y left right
    rw [Table.get?_cons] at left right
    by_cases here : k = key
    · rw [if_pos here, Option.some.injEq] at left right
      subst left right
      exact alike
    · rw [if_neg here] at left right
      exact ih key x y left right

/-- The fields that an object has under a key, alike or missing on both sides. -/
theorem get? {a b : Table Value} (alike : (Value.object a).Alike (.object b)) (key : String) :
    (Table.get? a key = none ∧ Table.get? b key = none) ∨
      ∃ x y, Table.get? a key = some x ∧ Table.get? b key = some y ∧ x.Alike y := by
  have either : (Table.get? a key).isSome ↔ (Table.get? b key).isSome := by
    cases alike with
    | refl => rfl
    | object keys _ => rw [Table.get?_isSome_iff, Table.get?_isSome_iff, keys.mem_iff]
  cases left : Table.get? a key with
  | none =>
    rw [left] at either
    exact .inl ⟨rfl, Option.not_isSome_iff_eq_none.mp (by simp [← either])⟩
  | some x =>
    rw [left] at either
    obtain ⟨y, right⟩ := Option.isSome_iff_exists.mp (either.mp rfl)
    refine .inr ⟨x, y, rfl, right, ?_⟩
    cases alike with
    | refl =>
      obtain rfl : x = y := Option.some.inj (left.symm.trans right)
      exact .refl x
    | object _ fields => exact fields key x y left right

end Alike

theorem itemTexts_eq (items : List Value) :
    itemTexts items = items.map fun v => if v.isNull then "" else v.text := by
  induction items with
  | nil => rfl
  | cons v items ih => rw [itemTexts, ih, List.map_cons]

theorem Alike.text_eq {v w : Value} (alike : v.Alike w) : v.text = w.text := by
  induction alike with
  | refl => rfl
  | @array a b count items ih =>
    have same : itemTexts a = itemTexts b := by
      rw [itemTexts_eq, itemTexts_eq]
      apply List.ext_getElem?
      intro i
      rw [List.getElem?_map, List.getElem?_map]
      cases left : a[i]? with
      | none =>
        rw [List.getElem?_eq_none_iff] at left
        rw [List.getElem?_eq_none_iff.mpr (by omega)]
      | some x =>
        obtain ⟨inside, _⟩ := List.getElem?_eq_some_iff.mp left
        have right : b[i]? = some b[i] := List.getElem?_eq_getElem (by omega)
        rw [right, Option.map_some, Option.map_some, (items i _ _ left right).isNull_eq, ih i _ _ left right]
    rw [text, text, same]
  | object => rfl

end Value

/-! ### Reports -/

/-- The same errors, and values that are alike. -/
structure Report.Alike (r s : Report) : Prop where
  errors : r.errors = s.errors
  value : r.value.Alike s.value

namespace Report

theorem Alike.refl (r : Report) : r.Alike r := ⟨rfl, .refl _⟩

theorem Alike.symm {r s : Report} (alike : r.Alike s) : s.Alike r := ⟨alike.errors.symm, alike.value.symm⟩

theorem Alike.trans {r s t : Report} (first : r.Alike s) (second : s.Alike t) : r.Alike t :=
  ⟨first.errors.trans second.errors, first.value.trans second.value⟩

theorem Alike.andThen {r s : Report} (first : r.Alike s) {next : Value → Report}
    (second : ∀ v w, v.Alike w → (next v).Alike (next w)) : (r.andThen next).Alike (s.andThen next) := by
  unfold Report.andThen
  rw [first.errors]
  split
  · exact second _ _ first.value
  · exact first

end Report

theorem LeafType.report_alike (type : LeafType) {v w : Value} (alike : v.Alike w) :
    (type.report v).Alike (type.report w) := by
  have text := alike.text_eq
  have passed : (Report.pass v).Alike (Report.pass w) := ⟨rfl, alike⟩
  cases alike with
  | refl => exact .refl _
  | array =>
    cases type
    case string => simp only [report, coerce?, text]; exact .refl _
    case array => exact passed
    all_goals exact .refl _
  | object =>
    cases type
    case object => exact passed
    all_goals exact .refl _

end Conform
