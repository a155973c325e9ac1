/-!
# Tables

A table lists named entries in the order in which the names came. Writing to a name that is there keeps
its place (`keys_insert_of_mem`), a new name goes to the end (`keys_insert_of_not_mem`), and removing one
keeps the order of the others (`keys_erase`). A name occurs once in every table that these operations
build (`distinct_insert`, `distinct_erase`).
-/

namespace Conform

abbrev Table (α : Type) := List (String × α)

namespace Table

variable {α : Type}

def keys (t : Table α) : List String := t.map (·.1)

def Distinct (t : Table α) : Prop := t.keys.Nodup

def get? : Table α → String → Option α
  | [], _ => none
  | (k, a) :: t, key => if k = key then some a else get? t key

def contains (t : Table α) (key : String) : Bool := (get? t key).isSome

/-- The table with `a` under a name: in the place of the entry it replaces, else at the end. -/
def insert : Table α → String → α → Table α
  | [], key, a => [(key, a)]
  | (k, b) :: t, key, a => if k = key then (key, a) :: t else (k, b) :: insert t key a

def erase (t : Table α) (key : String) : Table α := t.filter (·.1 != key)

/-- What is under a name, and the table without it. -/
def extract (t : Table α) (key : String) : Option α × Table α := (t.get? key, t.erase key)

def insertAll (t u : Table α) : Table α := u.foldl (fun t e => insert t e.1 e.2) t

/-- The table of a list of entries: of a repeated name the first place and the last entry. -/
def ofList (entries : List (String × α)) : Table α := insertAll [] entries

@[simp] theorem keys_nil : keys ([] : Table α) = [] := rfl

@[simp] theorem keys_cons (k : String) (a : α) (t : Table α) : keys ((k, a) :: t) = k :: keys t := rfl

@[simp] theorem get?_nil (key : String) : get? ([] : Table α) key = none := rfl

theorem get?_cons (k : String) (a : α) (t : Table α) (key : String) :
    get? ((k, a) :: t) key = if k = key then some a else get? t key := rfl

@[simp] theorem insert_nil (key : String) (a : α) : insert [] key a = [(key, a)] := rfl

theorem insert_cons (k : String) (b : α) (t : Table α) (key : String) (a : α) :
    insert ((k, b) :: t) key a = if k = key then (key, a) :: t else (k, b) :: insert t key a := rfl

theorem get?_insert_same (t : Table α) (key : String) (a : α) : get? (insert t key a) key = some a := by
  induction t with
  | nil => simp [get?_cons]
  | cons e t ih =>
    obtain ⟨k, b⟩ := e
    by_cases h : k = key <;> simp [insert_cons, get?_cons, h, ih]

theorem get?_insert_other (t : Table α) {key other : String} (a : α) (h : other ≠ key) :
    get? (insert t key a) other = get? t other := by
  induction t with
  | nil => simp [get?_cons, Ne.symm h]
  | cons e t ih =>
    obtain ⟨k, b⟩ := e
    by_cases hk : k = key
    · subst hk; simp [insert_cons, get?_cons, Ne.symm h]
    · simp [insert_cons, get?_cons, hk, ih]

theorem get?_eq_none_iff {t : Table α} {key : String} : get? t key = none ↔ key ∉ t.keys := by
  induction t with
  | nil => simp
  | cons e t ih =>
    obtain ⟨k, b⟩ := e
    by_cases hk : k = key
    · simp [get?_cons, hk]
    · simp [get?_cons, hk, ih, Ne.symm hk]

theorem mem_of_get? {t : Table α} {key : String} {a : α} (h : get? t key = some a) : (key, a) ∈ t := by
  induction t with
  | nil => simp at h
  | cons e t ih =>
    obtain ⟨k, b⟩ := e
    by_cases hk : k = key
    · subst hk; simp [get?_cons] at h; simp [h]
    · simp only [get?_cons, hk, if_false] at h; exact List.mem_cons_of_mem _ (ih h)

theorem mem_of_mem_insert {t : Table α} {key : String} {a : α} {e : String × α} (member : e ∈ insert t key a) :
    e = (key, a) ∨ e ∈ t := by
  induction t with
  | nil => exact .inl (List.mem_singleton.mp member)
  | cons first t ih =>
    obtain ⟨k, b⟩ := first
    rw [insert_cons] at member
    split at member
    · rcases List.mem_cons.mp member with here | later
      · exact .inl here
      · exact .inr (List.mem_cons_of_mem _ later)
    · rcases List.mem_cons.mp member with here | later
      · exact .inr (here ▸ List.mem_cons_self)
      · exact (ih later).imp_right (List.mem_cons_of_mem _)

theorem keys_insert_of_mem {t : Table α} {key : String} (a : α) (h : key ∈ t.keys) :
    (insert t key a).keys = t.keys := by
  induction t with
  | nil => simp at h
  | cons e t ih =>
    obtain ⟨k, b⟩ := e
    by_cases hk : k = key
    · simp [insert_cons, hk]
    · rw [keys_cons, List.mem_cons] at h
      simp [insert_cons, hk, ih (h.resolve_left (Ne.symm hk))]

theorem keys_insert_of_not_mem {t : Table α} {key : String} (a : α) (h : key ∉ t.keys) :
    (insert t key a).keys = t.keys ++ [key] := by
  induction t with
  | nil => simp
  | cons e t ih =>
    obtain ⟨k, b⟩ := e
    simp only [keys_cons, List.mem_cons, not_or] at h
    simp [insert_cons, Ne.symm h.1, ih h.2]

theorem keys_erase (t : Table α) (key : String) : (erase t key).keys = t.keys.filter (· != key) := by
  simp [erase, keys, List.filter_map, Function.comp_def]

theorem get?_erase_same (t : Table α) (key : String) : get? (erase t key) key = none := by
  rw [get?_eq_none_iff, keys_erase]
  simp

theorem get?_erase_other (t : Table α) {key other : String} (h : other ≠ key) :
    get? (erase t key) other = get? t other := by
  induction t with
  | nil => rfl
  | cons e t ih =>
    obtain ⟨k, b⟩ := e
    by_cases hk : k = key
    · subst hk
      simpa [erase, get?_cons, Ne.symm h] using ih
    · simp only [erase, List.filter_cons, bne_iff_ne, ne_eq, hk, not_false_eq_true, if_true, get?_cons]
      split
      · rfl
      · exact ih

theorem distinct_insert {t : Table α} (key : String) (a : α) (h : t.Distinct) :
    Distinct (insert t key a) := by
  by_cases hm : key ∈ t.keys
  · rw [Distinct, keys_insert_of_mem a hm]; exact h
  · rw [Distinct, keys_insert_of_not_mem a hm, List.nodup_append]
    refine ⟨h, by simp, ?_⟩
    intro x hx y hy
    simp only [List.mem_singleton] at hy
    subst hy
    exact fun e => hm (e ▸ hx)

theorem distinct_erase {t : Table α} (key : String) (h : t.Distinct) : Distinct (erase t key) := by
  rw [Distinct, keys_erase]; exact h.filter _

theorem distinct_insertAll {t : Table α} (u : Table α) (h : t.Distinct) : Distinct (insertAll t u) := by
  induction u generalizing t with
  | nil => exact h
  | cons e u ih => exact ih (distinct_insert e.1 e.2 h)

theorem distinct_ofList (entries : List (String × α)) : Distinct (ofList entries) :=
  distinct_insertAll entries List.nodup_nil

end Table

end Conform
