import Conform.LogBook
import Mathlib.Data.List.DropRight
import Mathlib.Data.List.Induction

/-!
# Scopes of many logs

Scopes are made, cloned and used in any order, those of one log side by side with those of others. What they show is
settled by the calls alone: the path of a scope by the paths from its root down, the errors that it sees by what was
recorded through the scopes of its root since these were last taken (`scopes_show_recordings`). Scopes and roots are both
numbered in the order in which they are made.
-/

namespace Conform

namespace LogBook

/-! ### Sessions -/

/-- How a scope is made. -/
inductive Birth where
  | root (policy : Policy)
  | child (parent : Nat) (path : String)
  | clone (original : Nat)

/-- What a scope is used for. -/
inductive Request where
  | error (message : String)
  | errorWith (e : ValidationError)
  | path
  | policy
  | count
  | first
  | take

inductive Call where
  | make (birth : Birth)
  | use (scope : Nat) (request : Request)

inductive Answer where
  | made (scope : Nat)
  | signal (signal : Signal)
  | path (path : String)
  | policy (policy : Policy)
  | count (n : Nat)
  | first (e? : Option ValidationError)
  | taken (errors : List ValidationError)

def request (b : LogBook) (s : Scope) : Request → Answer × LogBook
  | .error message => let told := b.record s (.ofMessage message); (.signal told.1, told.2)
  | .errorWith e => let told := b.record s e; (.signal told.1, told.2)
  | .path => (.path s.path, b)
  | .policy => let told := b.ask s .policy; (.policy told.1, told.2)
  | .count => let told := b.ask s .count; (.count told.1, told.2)
  | .first => let told := b.ask s .first; (.first told.1, told.2)
  | .take => let told := b.take s; (.taken told.1, told.2)

/-- What a scope shows. -/
structure View where
  path : String
  policy : Policy
  errors : List ValidationError

/-- A book of logs and the scopes that were made on it. -/
structure Session where
  book : LogBook
  scopes : List Scope

namespace Session

def view? (s : Session) (i : Nat) : Option View :=
  s.scopes[i]?.map fun scope => ⟨scope.path, (s.book.log scope).policy, s.book.errors scope⟩

def born? (s : Session) : Birth → Option (Scope × LogBook)
  | .root policy => some (s.book.openLog policy)
  | .child parent path => s.scopes[parent]?.map fun scope => (scope.at path, s.book)
  | .clone original => s.scopes[original]?.map fun scope => (scope, s.book)

/-- One call, if the scopes that it names are there. -/
def step? (s : Session) : Call → Option (Answer × Session)
  | .make birth => (s.born? birth).map fun (scope, book) => (.made s.scopes.length, ⟨book, s.scopes ++ [scope]⟩)
  | .use i request => s.scopes[i]?.map fun scope =>
    let told := s.book.request scope request; (told.1, ⟨told.2, s.scopes⟩)

/-- The session after some calls, each on scopes that were there by then. -/
def after? (calls : List Call) : Option Session := calls.foldlM (fun s call => (s.step? call).map (·.2)) ⟨.empty, []⟩

theorem after?_concat (calls : List Call) (call : Call) :
    after? (calls ++ [call]) = (after? calls).bind fun s => (s.step? call).map (·.2) := by
  simp [after?, List.foldlM_append]

end Session

/-! ### What calls come to -/

/-- Where a scope comes from: its root, the policy of that, and the relative paths from there down. -/
structure Lineage where
  root : Nat
  policy : Policy
  relatives : List String

namespace Lineage

def path (l : Lineage) : String := String.join l.relatives

def below (l : Lineage) (path : String) : Lineage := { l with relatives := l.relatives ++ [path] }

@[simp] theorem root_below (l : Lineage) (path : String) : (l.below path).root = l.root := rfl

@[simp] theorem policy_below (l : Lineage) (path : String) : (l.below path).policy = l.policy := rfl

theorem path_below (l : Lineage) (path : String) : (l.below path).path = l.path ++ path := by
  simp [below, Lineage.path, String.join_append]

end Lineage

def Birth.policy? : Birth → Option Policy
  | root policy => some policy
  | child _ _ | clone _ => none

/-- The lineage of the scope that is made next, by those of the scopes and the number of the roots so far. -/
def Birth.lineage? (known : Nat → Option Lineage) (roots : Nat) : Birth → Option Lineage
  | root policy => some ⟨roots, policy, []⟩
  | child parent path => (known parent).map (·.below path)
  | clone original => known original

/-- The lineage of a scope, births standing with the latest first. -/
def lineageIn? : List Birth → Nat → Option Lineage
  | [], _ => none
  | birth :: earlier, i =>
    if i = earlier.length then birth.lineage? (lineageIn? earlier) (earlier.filterMap Birth.policy?).length
    else lineageIn? earlier i

def Call.birth? : Call → Option Birth
  | make birth => some birth
  | use _ _ => none

def births (calls : List Call) : List Birth := calls.filterMap Call.birth?

/-- The policies of the roots, in order. -/
def policies (calls : List Call) : List Policy := (births calls).filterMap Birth.policy?

def lineage? (calls : List Call) (i : Nat) : Option Lineage := lineageIn? (births calls).reverse i

def Request.recorded? : Request → Option ValidationError
  | error message => some (.ofMessage message)
  | errorWith e => some e
  | _ => none

/-- The error that a call records for a root, with the path of the scope in front of its own. -/
def recordedFor? (lineage? : Nat → Option Lineage) (root : Nat) : Call → Option ValidationError
  | .make _ => none
  | .use i request => (lineage? i).bind fun l =>
    if l.root = root then request.recorded?.map fun e => { e with path := l.path ++ e.path } else none

/-- A call takes the errors of a root. -/
def takesFrom (lineage? : Nat → Option Lineage) (root : Nat) : Call → Bool
  | .use i .take => (lineage? i).any (·.root == root)
  | _ => false

/-- What was recorded for a root since its errors were last taken. -/
def outstandingBy (lineage? : Nat → Option Lineage) (calls : List Call) (root : Nat) : List ValidationError :=
  (calls.rtakeWhile fun call => !takesFrom lineage? root call).filterMap (recordedFor? lineage? root)

def outstanding (calls : List Call) (root : Nat) : List ValidationError := outstandingBy (lineage? calls) calls root

/-- The answer to a request through a scope, by its path and what its root is known to hold. -/
def Request.answer (path : String) (policy : Policy) (errors : List ValidationError) : Request → Answer
  | error _ | errorWith _ => .signal (if policy = .failFast then .halt else .proceed)
  | .path => .path path
  | .policy => .policy policy
  | count => .count errors.length
  | first => .first errors.head?
  | take => .taken errors

/-- The answer to one more call, by the calls before it. -/
def told? (calls : List Call) : Call → Option Answer
  | .make birth => (birth.lineage? (lineage? calls) (policies calls).length).map fun _ => .made (births calls).length
  | .use i request => (lineage? calls i).map fun l => request.answer l.path l.policy (outstanding calls l.root)

/-! ### One call more -/

variable {calls : List Call}

@[simp] theorem births_concat_make (calls : List Call) (birth : Birth) :
    births (calls ++ [.make birth]) = births calls ++ [birth] := by
  simp [births, Call.birth?]

@[simp] theorem births_concat_use (calls : List Call) (i : Nat) (request : Request) :
    births (calls ++ [.use i request]) = births calls := by
  simp [births, Call.birth?]

@[simp] theorem policies_concat_make (calls : List Call) (birth : Birth) :
    policies (calls ++ [.make birth]) = policies calls ++ birth.policy?.toList := by
  cases birth <;> simp [policies, Birth.policy?]

@[simp] theorem policies_concat_use (calls : List Call) (i : Nat) (request : Request) :
    policies (calls ++ [.use i request]) = policies calls := by
  simp [policies]

theorem lineage?_concat_use (calls : List Call) (i : Nat) (request : Request) :
    lineage? (calls ++ [.use i request]) = lineage? calls := by
  funext j
  simp [lineage?]

theorem lineage?_concat_make (calls : List Call) (birth : Birth) (i : Nat) :
    lineage? (calls ++ [.make birth]) i =
      if i = (births calls).length then birth.lineage? (lineage? calls) (policies calls).length else lineage? calls i := by
  rw [lineage?, births_concat_make, List.reverse_concat, lineageIn?, List.length_reverse, List.filterMap_reverse,
    List.length_reverse]
  rfl

theorem lineage?_lt {i : Nat} {l : Lineage} (h : lineage? calls i = some l) : i < (births calls).length := by
  have bound : ∀ earlier : List Birth, ∀ l, lineageIn? earlier i = some l → i < earlier.length := by
    intro earlier
    induction earlier with
    | nil => nofun
    | cons birth earlier ih =>
      intro l h
      rw [lineageIn?] at h
      split at h
      case isTrue here => exact here ▸ Nat.lt_succ_self _
      case isFalse => exact Nat.lt_succ_of_lt (ih l h)
  simpa using bound _ l h

theorem lineage?_concat {i : Nat} {l : Lineage} (there : lineage? calls i = some l) (call : Call) :
    lineage? (calls ++ [call]) i = some l := by
  cases call with
  | make birth => rw [lineage?_concat_make, if_neg (Nat.ne_of_lt (lineage?_lt there)), there]
  | use j request => rw [lineage?_concat_use, there]

/-- The root of a scope is there, with the policy that the scope shows. -/
theorem policies_root {i : Nat} {l : Lineage} (h : lineage? calls i = some l) :
    (policies calls)[l.root]? = some l.policy := by
  induction calls using List.reverseRecOn generalizing i l with
  | nil => exact absurd h nofun
  | append_singleton calls call ih =>
    cases call with
    | use j request =>
      rw [lineage?_concat_use] at h
      rw [policies_concat_use]
      exact ih h
    | make birth =>
      have kept : ∀ {i l}, lineage? calls i = some l →
          (policies (calls ++ [.make birth]))[l.root]? = some l.policy := by
        intro i l h
        rw [policies_concat_make]
        exact (List.getElem?_append_left (List.getElem?_eq_some_iff.mp (ih h)).1).trans (ih h)
      rw [lineage?_concat_make] at h
      split at h
      case isFalse => exact kept h
      case isTrue =>
        cases birth with
        | root policy =>
          obtain rfl := Option.some.inj h
          simp [Birth.policy?]
        | child parent path =>
          obtain ⟨above, there, rfl⟩ := Option.map_eq_some_iff.mp h
          simpa using kept there
        | clone original => exact kept h

theorem outstandingBy_concat (known : Nat → Option Lineage) (calls : List Call) (call : Call) (root : Nat) :
    outstandingBy known (calls ++ [call]) root =
      if takesFrom known root call then []
      else outstandingBy known calls root ++ (recordedFor? known root call).toList := by
  rw [outstandingBy, List.rtakeWhile_concat]
  cases takesFrom known root call with
  | true => rfl
  | false => cases records : recordedFor? known root call <;> simp [outstandingBy, records]

theorem outstandingBy_congr {known known' : Nat → Option Lineage} (root : Nat)
    (same : ∀ i request, Call.use i request ∈ calls → known' i = known i) :
    outstandingBy known' calls root = outstandingBy known calls root := by
  induction calls using List.reverseRecOn with
  | nil => rfl
  | append_singleton calls call ih =>
    have earlier := ih fun i request there => same i request (List.mem_append_left _ there)
    rw [outstandingBy_concat, outstandingBy_concat, earlier]
    cases call with
    | make birth => rfl
    | use i request =>
      have here : known' i = known i := same i request (by simp)
      have takes : takesFrom known' root (.use i request) = takesFrom known root (.use i request) := by
        cases request <;> simp [takesFrom, here]
      have records : recordedFor? known' root (.use i request) = recordedFor? known root (.use i request) := by
        rw [recordedFor?, recordedFor?, here]
      rw [takes, records]

/-- Nothing is outstanding for a root that is still to come. -/
theorem outstanding_unborn (calls : List Call) : outstanding calls (policies calls).length = [] := by
  rw [outstanding, outstandingBy, List.filterMap_eq_nil_iff]
  intro call _
  cases call with
  | make birth => rfl
  | use i request =>
    rw [recordedFor?, Option.bind_eq_none_iff]
    intro l there
    exact if_neg (Nat.ne_of_lt (List.getElem?_eq_some_iff.mp (policies_root there)).1)

/-- A new scope changes nothing, as no call so far went through it. -/
theorem outstanding_make (named : ∀ i request, Call.use i request ∈ calls → i < (births calls).length) (birth : Birth)
    (root : Nat) : outstanding (calls ++ [.make birth]) root = outstanding calls root := by
  rw [outstanding, outstandingBy_concat]
  refine (List.append_nil _).trans (outstandingBy_congr root fun i request there => ?_)
  rw [lineage?_concat_make, if_neg (Nat.ne_of_lt (named i request there))]

/-- The errors of a log after a request through one of its scopes. -/
def Request.leaves (path : String) (errors : List ValidationError) : Request → List ValidationError
  | take => []
  | request => errors ++ (request.recorded?.map (·.under path)).toList

theorem Request.answer_recorded {request : Request} {e : ValidationError} (records : request.recorded? = some e)
    (path : String) (policy : Policy) (errors : List ValidationError) :
    request.answer path policy errors = .signal (if policy = .failFast then .halt else .proceed) := by
  cases request with
  | error message | errorWith e => rfl
  | _ => exact absurd records nofun

theorem Request.leaves_recorded {request : Request} {e : ValidationError} (records : request.recorded? = some e)
    (path : String) (errors : List ValidationError) :
    request.leaves path errors = errors ++ [{ e with path := path ++ e.path }] := by
  cases request with
  | error message | errorWith e =>
    obtain rfl := Option.some.inj records
    rfl
  | _ => exact absurd records nofun

theorem outstanding_use {i : Nat} {l : Lineage} (there : lineage? calls i = some l) (request : Request) (root : Nat) :
    outstanding (calls ++ [.use i request]) root =
      if l.root = root then request.leaves l.path (outstanding calls root) else outstanding calls root := by
  rw [outstanding, lineage?_concat_use, outstandingBy_concat, recordedFor?, there]
  by_cases same : l.root = root
  · cases request <;> simp [takesFrom, there, same, Request.leaves, Request.recorded?, outstanding, ValidationError.under]
  · cases request <;> simp [takesFrom, there, same, outstanding]

/-! ### Sessions keep to what calls come to -/

/-- What holds of a session after some calls. The log of a root has the number of the root, so scopes share a log if they
share a root. -/
structure Kept (calls : List Call) (s : Session) : Prop where
  made : s.scopes.length = (births calls).length
  scopes : ∀ i, s.scopes[i]? = (lineage? calls i).map fun l => ⟨l.root, l.path⟩
  logs : s.book.logs = (policies calls).mapIdx fun root policy => ⟨policy, outstanding calls root⟩
  named : ∀ i request, Call.use i request ∈ calls → i < (births calls).length

variable {s later : Session}

theorem kept_nil : Kept [] ⟨.empty, []⟩ where
  made := rfl
  scopes _ := rfl
  logs := rfl
  named _ _ := nofun

theorem Kept.log (kept : Kept calls s) {i : Nat} {l : Lineage} (there : lineage? calls i = some l) :
    s.book.logs[l.root]? = some ⟨l.policy, outstanding calls l.root⟩ := by
  rw [kept.logs, List.getElem?_mapIdx, policies_root there]
  rfl

theorem log_eq {b : LogBook} (scope : Scope) {log : Log} (there : b.logs[scope.log]? = some log) : b.log scope = log := by
  rw [LogBook.log, List.getD_eq_getElem?_getD, there, Option.getD_some]

theorem request_eq {b : LogBook} (scope : Scope) {log : Log} (there : b.logs[scope.log]? = some log) (request : Request) :
    (b.request scope request).1 = request.answer scope.path log.policy log.errors ∧
      (b.request scope request).2.logs = b.logs.set scope.log ⟨log.policy, request.leaves scope.path log.errors⟩ := by
  have known := log_eq scope there
  have signal : log.policy.signal = if log.policy = .failFast then .halt else .proceed := by cases log.policy <;> rfl
  have same : b.logs = b.logs.set scope.log log := by
    obtain ⟨bound, rfl⟩ := List.getElem?_eq_some_iff.mp there
    exact (List.set_getElem_self bound).symm
  cases request <;> simp [LogBook.request, record, ask, LogBook.take, Journal.answer, known, signal, Request.answer,
    Request.leaves, Request.recorded?, ← same]

theorem Kept.view? (kept : Kept calls s) (i : Nat) :
    s.view? i = (lineage? calls i).map fun l => ⟨l.path, l.policy, outstanding calls l.root⟩ := by
  rw [Session.view?, kept.scopes]
  cases there : lineage? calls i with
  | none => rfl
  | some l =>
    have log := log_eq ⟨l.root, l.path⟩ (kept.log there)
    simp [LogBook.errors, log]

theorem Kept.born? (kept : Kept calls s) (birth : Birth) :
    s.born? birth = (birth.lineage? (lineage? calls) (policies calls).length).map fun l =>
      (⟨l.root, l.path⟩, ⟨s.book.logs ++ birth.policy?.toList.map (⟨·, []⟩), s.book.events⟩) := by
  cases birth with
  | root policy =>
    have next : s.book.logs.length = (policies calls).length := by rw [kept.logs, List.length_mapIdx]
    simp [Session.born?, openLog, Birth.lineage?, Birth.policy?, next, Lineage.path, String.join]
  | child parent path =>
    cases known : lineage? calls parent <;>
      simp [Session.born?, kept.scopes, Birth.lineage?, Birth.policy?, known, Scope.at, Lineage.path_below]
  | clone original =>
    simp [Session.born?, kept.scopes, Birth.lineage?, Birth.policy?, Function.comp_def]

theorem Kept.make (kept : Kept calls s) {birth : Birth} {scope : Scope} {book : LogBook}
    (born : s.born? birth = some (scope, book)) : Kept (calls ++ [.make birth]) ⟨book, s.scopes ++ [scope]⟩ := by
  rw [kept.born?, Option.map_eq_some_iff] at born
  obtain ⟨l, known, rfl, rfl⟩ := born
  constructor
  · simp [kept.made]
  · intro i
    -- Past the new scope there is none, before it as after.
    rw [lineage?_concat_make, known, ← kept.made]
    by_cases last : i = s.scopes.length
    · rw [if_pos last, last, List.getElem?_concat_length]
      rfl
    · rw [if_neg last, ← kept.scopes, List.getElem?_append]
      split
      · rfl
      · rw [List.getElem?_eq_none (by simp; omega), List.getElem?_eq_none (by omega)]
  · have errors := outstanding_make kept.named birth
    simp only [kept.logs, policies_concat_make, List.mapIdx_append, errors]
    -- Only a root brings a log, the number of which no earlier call can have meant.
    cases birth with
    | root policy => simp [Birth.policy?, outstanding_unborn]
    | child parent path => simp [Birth.policy?]
    | clone original => simp [Birth.policy?]
  · intro i request there
    have earlier : Call.use i request ∈ calls := by simpa using there
    rw [births_concat_make, List.length_append]
    exact Nat.lt_add_right _ (kept.named i request earlier)

theorem Kept.use (kept : Kept calls s) {i : Nat} {scope : Scope} (there : s.scopes[i]? = some scope) (request : Request) :
    Kept (calls ++ [.use i request]) ⟨(s.book.request scope request).2, s.scopes⟩ := by
  rw [kept.scopes, Option.map_eq_some_iff] at there
  obtain ⟨l, known, rfl⟩ := there
  constructor
  · rw [births_concat_use]
    exact kept.made
  · intro j
    rw [lineage?_concat_use]
    exact kept.scopes j
  · rw [(request_eq ⟨l.root, l.path⟩ (kept.log known) request).2]
    apply List.ext_getElem?
    intro root
    rw [policies_concat_use, List.getElem?_mapIdx, outstanding_use known]
    by_cases same : l.root = root
    · subst same
      rw [if_pos rfl, policies_root known, List.getElem?_set_self (List.getElem?_eq_some_iff.mp (kept.log known)).1]
      rfl
    · rw [if_neg same, List.getElem?_set_ne same, kept.logs, List.getElem?_mapIdx]
  · intro j other there
    rw [births_concat_use]
    rcases List.mem_append.mp there with earlier | last
    · exact kept.named j other earlier
    · obtain ⟨rfl, rfl⟩ := Call.use.inj (List.mem_singleton.mp last)
      exact lineage?_lt known

theorem Kept.step (kept : Kept calls s) {call : Call} {answer : Answer} (taken : s.step? call = some (answer, later)) :
    Kept (calls ++ [call]) later := by
  cases call with
  | make birth =>
    obtain ⟨⟨scope, book⟩, born, same⟩ := Option.map_eq_some_iff.mp taken
    obtain ⟨-, rfl⟩ := Prod.mk.inj same
    exact kept.make born
  | use i request =>
    obtain ⟨scope, there, same⟩ := Option.map_eq_some_iff.mp taken
    obtain ⟨-, rfl⟩ := Prod.mk.inj same
    exact kept.use there request

theorem kept_after (performed : Session.after? calls = some s) : Kept calls s := by
  induction calls using List.reverseRecOn generalizing s with
  | nil =>
    obtain rfl := Option.some.inj performed
    exact kept_nil
  | append_singleton calls call ih =>
    rw [Session.after?_concat] at performed
    obtain ⟨before, earlier, stepped⟩ := Option.bind_eq_some_iff.mp performed
    obtain ⟨⟨answer, later⟩, taken, rfl⟩ := Option.map_eq_some_iff.mp stepped
    exact (ih earlier).step taken

theorem Kept.answers (kept : Kept calls s) (call : Call) : (s.step? call).map (·.1) = told? calls call := by
  cases call with
  | make birth =>
    rw [Session.step?, told?, kept.born?, Option.map_map, Option.map_map, kept.made]
    rfl
  | use i request =>
    rw [Session.step?, told?, kept.scopes, Option.map_map, Option.map_map]
    cases known : lineage? calls i with
    | none => rfl
    | some l => exact congrArg some (request_eq ⟨l.root, l.path⟩ (kept.log known) request).1

/-- What a scope shows after a request through another, or through itself. -/
theorem Kept.view_use (kept : Kept calls s) {i j : Nat} {request : Request} {answer : Answer} {l m : Lineage}
    (taken : s.step? (.use i request) = some (answer, later)) (through : lineage? calls i = some l)
    (seen : lineage? calls j = some m) : later.view? j = some ⟨m.path, m.policy,
      if l.root = m.root then request.leaves l.path (outstanding calls m.root) else outstanding calls m.root⟩ := by
  rw [(kept.step taken).view?, lineage?_concat seen, Option.map_some, outstanding_use through]

/-- Whatever was done with whatever scopes, a scope shows the path from its root down, the policy of that root, and what
was recorded for it since its errors were last taken, and it answers by that. What is done with the scopes of one root is
shown by all of them and by no other. -/
theorem scopes_show_recordings {calls : List Call} {s : Session} (performed : Session.after? calls = some s) :
    (∀ i, s.view? i = (lineage? calls i).map fun l => ⟨l.path, l.policy, outstanding calls l.root⟩) ∧
    (∀ call, (s.step? call).map (·.1) = told? calls call) ∧
    (∀ i l request e, lineage? calls i = some l → request.recorded? = some e →
      ∃ later, s.step? (.use i request) = some (.signal (if l.policy = .failFast then .halt else .proceed), later) ∧
        ∀ j m, lineage? calls j = some m → l.root = m.root →
          later.view? j = some ⟨m.path, m.policy, outstanding calls m.root ++ [{ e with path := l.path ++ e.path }]⟩) ∧
    (∀ call answer later, s.step? call = some (answer, later) → Session.after? (calls ++ [call]) = some later ∧
      ∀ j m, lineage? calls j = some m →
        (∀ i request l, call = .use i request → lineage? calls i = some l → l.root ≠ m.root) →
          later.view? j = s.view? j) := by
  have kept := kept_after performed
  refine ⟨kept.view?, kept.answers, ?_, ?_⟩
  · intro i l request e through records
    have told : (s.step? (.use i request)).map (·.1) =
        some (.signal (if l.policy = .failFast then .halt else .proceed)) := by
      rw [kept.answers, told?, through, Option.map_some, Request.answer_recorded records]
    obtain ⟨⟨answer, later⟩, taken, rfl⟩ := Option.map_eq_some_iff.mp told
    refine ⟨later, taken, fun j m seen same => ?_⟩
    rw [kept.view_use taken through seen, if_pos same, Request.leaves_recorded records]
  · intro call answer later taken
    refine ⟨?_, fun j m seen apart => ?_⟩
    · rw [Session.after?_concat, performed, Option.bind_some, taken, Option.map_some]
    · rw [kept.view?, seen, Option.map_some]
      cases call with
      | make birth => rw [(kept.step taken).view?, lineage?_concat seen, Option.map_some, outstanding_make kept.named]
      | use i request =>
        have told : told? calls (.use i request) = some answer := by rw [← kept.answers, taken, Option.map_some]
        obtain ⟨l, through, -⟩ := Option.map_eq_some_iff.mp told
        rw [kept.view_use taken through seen, if_neg (apart i request l rfl through)]

/-- An order at a shop that takes all errors, and a till that stops at the first. -/
def tillCalls : List Call := [
  .make (.root .failFast), .make (.root .collectAll), .make (.child 1 ".order"), .make (.clone 2), .make (.child 3 ".buyer"),
  .use 4 (.error "Can't be null"), .use 0 (.errorWith ⟨"Not open", ".till", []⟩), .use 1 .take,
  .use 2 (.errorWith ⟨"Too short", ".name", [("min", .bool true)]⟩), .use 4 (.error "Not a string")]

theorem till_shown : ∃ s, Session.after? tillCalls = some s ∧
    (∀ i path, (i, path) ∈ [(1, ""), (2, ".order"), (3, ".order"), (4, ".order.buyer")] →
      s.view? i = some ⟨path, .collectAll,
        [⟨"Too short", ".order.name", [("min", .bool true)]⟩, ⟨"Not a string", ".order.buyer", []⟩]⟩) ∧
    s.view? 0 = some ⟨"", .failFast, [⟨"Not open", ".till", []⟩]⟩ ∧
    (s.step? (.use 0 (.error "Closed"))).map (·.1) = some (.signal .halt) ∧
    (s.step? (.use 3 .first)).map (·.1) = some (.first (some ⟨"Too short", ".order.name", [("min", .bool true)]⟩)) ∧
    (s.step? (.use 5 .count)).map (·.1) = none := by
  obtain ⟨shown, answers, -⟩ := scopes_show_recordings (rfl : Session.after? tillCalls = some _)
  refine ⟨_, rfl, ?_, (shown 0).trans rfl, (answers _).trans rfl, (answers _).trans rfl, (answers _).trans rfl⟩
  intro i path listed
  rw [shown]
  simp only [List.mem_cons, Prod.mk.injEq, List.not_mem_nil, or_false] at listed
  rcases listed with ⟨rfl, rfl⟩ | ⟨rfl, rfl⟩ | ⟨rfl, rfl⟩ | ⟨rfl, rfl⟩ <;> rfl

end LogBook

end Conform
