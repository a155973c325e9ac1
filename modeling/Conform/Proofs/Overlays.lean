import Conform.Table
import Mathlib.Data.List.Induction
import Mathlib.Tactic.Tauto

/-!
# Entries over a table

What a table shows after many entries were written to it is settled by the entries (`overlaid_insertAll`): under each name
the last one, in the place of what it replaces or behind what was there. The table of a list of entries is the case of an
empty base (`keys_ofList`, `get?_ofList`), and to gather entries in a table first makes no difference
(`insertAll_ofList`).
-/

namespace Conform.Table

variable {α : Type}

theorem insertAll_cons (t : Table α) (e : String × α) (u : Table α) :
    insertAll t (e :: u) = insertAll (insert t e.1 e.2) u := rfl

theorem insertAll_concat (t : Table α) (entries : List (String × α)) (key : String) (a : α) :
    insertAll t (entries ++ [(key, a)]) = insert (insertAll t entries) key a := List.foldl_append

theorem ofList_concat (entries : List (String × α)) (key : String) (a : α) :
    ofList (entries ++ [(key, a)]) = insert (ofList entries) key a := insertAll_concat [] entries key a

theorem mem_of_mem_insertAll {t u : Table α} {e : String × α} (member : e ∈ insertAll t u) : e ∈ t ∨ e ∈ u := by
  induction u generalizing t with
  | nil => exact .inl member
  | cons first u ih =>
    rcases ih member with early | late
    · rcases mem_of_mem_insert early with rfl | old
      · exact .inr List.mem_cons_self
      · exact .inl old
    · exact .inr (List.mem_cons_of_mem _ late)

theorem mem_of_mem_ofList {entries : List (String × α)} {e : String × α} (member : e ∈ ofList entries) :
    e ∈ entries := by
  rcases mem_of_mem_insertAll member with none | there
  · cases none
  · exact there

/-! ### Entries with names of their own -/

theorem insert_of_not_mem {t : Table α} {key : String} (a : α) (absent : key ∉ t.keys) :
    insert t key a = t ++ [(key, a)] := by
  induction t with
  | nil => rfl
  | cons e t ih =>
    obtain ⟨k, b⟩ := e
    simp only [keys_cons, List.mem_cons, not_or] at absent
    rw [insert_cons, if_neg (Ne.symm absent.1), ih absent.2, List.cons_append]

theorem insertAll_of_distinct {t u : Table α} (distinct : Distinct (t ++ u)) : insertAll t u = t ++ u := by
  induction u generalizing t with
  | nil => exact (List.append_nil t).symm
  | cons e u ih =>
    have absent : e.1 ∉ keys t := by
      intro present
      rw [Distinct, keys, List.map_append, List.nodup_append] at distinct
      exact distinct.2.2 e.1 present e.1 (by simp) rfl
    have step : insertAll t (e :: u) = insertAll (t ++ [e]) u := by
      rw [← insert_of_not_mem e.2 absent]
      rfl
    rw [step, ih (by rwa [List.append_assoc]), List.append_assoc]
    rfl

theorem ofList_of_distinct {t : Table α} (distinct : t.Distinct) : ofList t = t :=
  @insertAll_of_distinct α [] t distinct

/-! ### What the entries settle -/

/-- A table shows entries over a base: under each name the last entry, in the place of what it replaces, and behind the
names of the base the new ones as they first came. -/
structure Overlaid (t base : Table α) (entries : List (String × α)) : Prop where
  names : t.keys = base.keys ++ ((entries.map (·.1)).eraseDups.filter fun name => name ∉ base.keys)
  found : ∀ name, t.get? name = (get? entries.reverse name).or (base.get? name)

theorem eraseDups_concat (names : List String) (name : String) : (names ++ [name]).eraseDups =
    if name ∈ names then names.eraseDups else names.eraseDups ++ [name] := by
  rw [List.eraseDups_append]
  split <;> rename_i given <;> simp [List.removeAll, given, List.eraseDups_cons]

theorem overlaid_insertAll (base : Table α) (entries : List (String × α)) :
    Overlaid (insertAll base entries) base entries := by
  induction entries using List.reverseRecOn with
  | nil => exact ⟨by simp [insertAll], fun name => rfl⟩
  | append_singleton entries e ih =>
    obtain ⟨key, a⟩ := e
    obtain ⟨names, found⟩ := ih
    rw [insertAll_concat]
    have known : key ∈ (insertAll base entries).keys ↔ key ∈ base.keys ∨ key ∈ entries.map (·.1) := by
      rw [names, List.mem_append, List.mem_filter, List.mem_eraseDups, decide_eq_true_eq]
      tauto
    constructor
    · rw [List.map_append, List.map_singleton, eraseDups_concat]
      by_cases there : key ∈ (insertAll base entries).keys
      · rw [keys_insert_of_mem a there, names]
        rcases known.mp there with old | given
        · split <;> simp [old]
        · rw [if_pos given]
      · obtain ⟨fresh, absent⟩ := not_or.mp (known.not.mp there)
        rw [keys_insert_of_not_mem a there, names, if_neg absent]
        simp [fresh]
    · intro name
      rw [List.reverse_append, List.reverse_singleton, List.singleton_append, get?_cons]
      by_cases same : key = name
      · rw [if_pos same, ← same, get?_insert_same, Option.some_or]
      · rw [if_neg same, get?_insert_other _ _ (Ne.symm same), found]

theorem overlaid_ofList (entries : List (String × α)) : Overlaid (ofList entries) [] entries := overlaid_insertAll [] entries

/-- The keys of a list of entries, each where it comes first. -/
theorem keys_ofList (entries : List (String × α)) : (ofList entries).keys = (entries.map (·.1)).eraseDups := by
  rw [(overlaid_ofList entries).names, keys_nil, List.nil_append, List.filter_eq_self]
  simp

/-- Of a list of entries, the last one under a key stands. -/
theorem get?_ofList (entries : List (String × α)) (key : String) : get? (ofList entries) key = get? entries.reverse key := by
  rw [(overlaid_ofList entries).found, get?_nil, Option.or_none]

theorem get?_insertAll_of_not_mem (t : Table α) {u : Table α} {key : String} (absent : key ∉ keys u) :
    get? (insertAll t u) key = get? t key := by
  have none : get? u.reverse key = none := get?_eq_none_iff.mpr (by simpa [keys] using absent)
  rw [(overlaid_insertAll t u).found, none, Option.none_or]

/-! ### Entries gathered first -/

theorem insert_insert_same (t : Table α) (key : String) (a b : α) : insert (insert t key a) key b = insert t key b := by
  induction t with
  | nil => simp [insert_cons]
  | cons e t ih =>
    obtain ⟨k, c⟩ := e
    by_cases same : k = key
    · simp [insert_cons, same]
    · simp [insert_cons, same, ih]

/-- What is written to a name that is there may be written earlier than something else. -/
theorem insert_comm_of_mem {t : Table α} {key other : String} (there : key ∈ t.keys) (apart : key ≠ other) (a b : α) :
    insert (insert t key a) other b = insert (insert t other b) key a := by
  induction t with
  | nil => cases there
  | cons e t ih =>
    obtain ⟨k, c⟩ := e
    by_cases first : k = key
    · subst first
      simp [insert_cons, apart]
    · rw [keys_cons, List.mem_cons] at there
      have later := there.resolve_left (Ne.symm first)
      by_cases second : k = other
      · subst second
        simp [insert_cons, first]
      · simp [insert_cons, first, second, ih later]

theorem mem_keys_insert {t : Table α} {key other : String} (a : α) :
    other ∈ (insert t key a).keys ↔ other = key ∨ other ∈ t.keys := by
  by_cases there : key ∈ t.keys
  · rw [keys_insert_of_mem a there]
    exact ⟨.inr, fun either => either.elim (fun same => same ▸ there) id⟩
  · rw [keys_insert_of_not_mem a there, List.mem_append, List.mem_singleton, or_comm]

theorem insertAll_insert_of_not_mem {t u : Table α} {key : String} (there : key ∈ t.keys) (absent : key ∉ u.keys)
    (a : α) : insertAll (insert t key a) u = insert (insertAll t u) key a := by
  induction u generalizing t with
  | nil => rfl
  | cons e u ih =>
    rw [keys_cons, List.mem_cons, not_or] at absent
    rw [insertAll_cons, insertAll_cons, insert_comm_of_mem there absent.1]
    exact ih ((mem_keys_insert _).mpr (.inr there)) absent.2

/-- One entry written to a table before that is merged is as good as written after. The induction is on the table that is
merged: an entry that it replaces is found on the way. -/
theorem insertAll_insert (t : Table α) {u : Table α} (distinct : u.Distinct) (key : String) (a : α) :
    insertAll t (insert u key a) = insert (insertAll t u) key a := by
  induction u generalizing t with
  | nil => rfl
  | cons e u ih =>
    obtain ⟨k, b⟩ := e
    obtain ⟨absent, rest⟩ := List.nodup_cons.mp distinct
    by_cases same : k = key
    · subst same
      have there : k ∈ (insert t k b).keys := (mem_keys_insert b).mpr (.inl rfl)
      have replaced := insertAll_insert_of_not_mem there absent a
      rw [insert_insert_same] at replaced
      rw [insert_cons, if_pos rfl, insertAll_cons, insertAll_cons]
      exact replaced
    · rw [insert_cons, if_neg same, insertAll_cons, insertAll_cons]
      exact ih (insert t k b) rest

/-- To gather entries in a table and merge that is to write them one by one. -/
theorem insertAll_ofList (t : Table α) (entries : List (String × α)) :
    insertAll t (ofList entries) = insertAll t entries := by
  induction entries using List.reverseRecOn with
  | nil => rfl
  | append_singleton entries e ih =>
    obtain ⟨key, a⟩ := e
    rw [ofList_concat, insertAll_insert t (distinct_ofList entries), ih, insertAll_concat]

end Conform.Table
