import Mathlib.Data.List.Nodup
import EcmaScript.Object

/-!
Properties of objects. Setting and deleting properties makes up the history of an object. Its storage is a
faithful record of this history: it holds the last change of every key, and the keys in the order of their
first changes. What can be read of the storage is less: whether a key was ever changed, and nothing about the
value that it has.
-/

namespace EcmaScript

open List

/-- The changes of an object, the first one first. Each names a key, and the place of the value that the key
was set to, or nothing where it was deleted. -/
abbrev History := List (Text × Option Nat)

namespace History

def last? (history : History) (key : Text) : Option (Option Nat) :=
  (history.filter fun change => change.1 = key).getLast?.map Prod.snd

/-- The keys that were ever changed, each once, in the order of their first changes. -/
def keys (history : History) : List Text :=
  (history.map Prod.fst).eraseDups

variable {history : History} {key other : Text} {value : Option Nat}

theorem last?_concat : last? (history ++ [(other, value)]) key =
    if key = other then some value else history.last? key := by
  by_cases same : other = key
  · simp [last?, filter_append, same]
  · simp [last?, filter_append, same, Ne.symm same]

theorem keys_concat : keys (history ++ [(key, value)]) =
    if key ∈ history.keys then history.keys else history.keys ++ [key] := by
  have split : keys (history ++ [(key, value)]) =
      history.keys ++ ([key].removeAll (history.map Prod.fst)).eraseDups := by
    simp [keys, eraseDups_append]
  rw [split]
  by_cases changed : key ∈ history.map Prod.fst
  · have seen : key ∈ history.keys := mem_eraseDups.mpr changed
    simp [List.removeAll, changed, seen]
  · have unseen : key ∉ history.keys := mt mem_eraseDups.mp changed
    simp [List.removeAll, changed, unseen, eraseDups_cons]

end History

namespace Object

variable {object : Object} {key other : Text} {value : Option Nat}

theorem lookup_cons {k : Text} {v : Option Nat} {rest : List (Text × Option Nat)} :
    ((k, v) :: rest).lookup key = if key = k then some v else rest.lookup key := by
  by_cases same : key = k
  · simp [same]
  · simp [List.lookup_cons, same, beq_eq_false_iff_ne.mpr same]

theorem lookup_put : (object.put other value).storage.lookup key =
    if key = other then some value else object.storage.lookup key := by
  show (put.go other value object.storage).lookup key = _
  induction object.storage with
  | nil => rw [put.go, lookup_cons]
  | cons entry rest ih =>
    obtain ⟨k, v⟩ := entry
    by_cases here : k = other
    · rw [put.go, if_pos here, lookup_cons, lookup_cons, here]
      split <;> rfl
    · rw [put.go, if_neg here, lookup_cons, lookup_cons, ih]
      by_cases same : key = k
      · simp [same, here]
      · simp [same]

/-- A key that is new comes last, any other one stays where it is. -/
theorem keys_put : (object.put key value).keys =
    if key ∈ object.keys then object.keys else object.keys ++ [key] := by
  have keys_go (storage : List (Text × Option Nat)) : (put.go key value storage).map Prod.fst =
      if key ∈ storage.map Prod.fst then storage.map Prod.fst else storage.map Prod.fst ++ [key] := by
    induction storage with
    | nil => rfl
    | cons entry rest ih =>
      obtain ⟨k, v⟩ := entry
      by_cases here : k = key
      · simp [put.go, here]
      · rw [put.go, if_neg here, map_cons, ih]
        by_cases member : key ∈ rest.map Prod.fst <;> simp [member, Ne.symm here]
  exact keys_go object.storage

theorem has_eq : object.has key = decide (key ∈ object.keys) := by
  rw [Bool.eq_iff_iff, decide_eq_true_iff]
  simp [has, keys]

theorem lookup_eq_none : object.storage.lookup key = none ↔ key ∉ object.keys := by
  unfold keys
  induction object.storage with
  | nil => simp
  | cons entry rest ih =>
    obtain ⟨k, v⟩ := entry
    rw [lookup_cons]
    by_cases same : key = k <;> simp [same, ih]

/-- The storage of the object is a record of these changes. -/
structure Records (object : Object) (history : History) : Prop where
  lookup : ∀ key, object.storage.lookup key = history.last? key
  keys : object.keys = history.keys
  nodup : object.keys.Nodup

/-- A fresh object has no history. -/
theorem Records.fresh (empty : object.storage = []) : object.Records [] where
  lookup key := by rw [empty]; rfl
  keys := by rw [Object.keys, empty]; rfl
  nodup := by rw [Object.keys, empty]; exact .nil

theorem Records.put {history : History} (records : object.Records history) (key : Text)
    (value : Option Nat) : (object.put key value).Records (history ++ [(key, value)]) where
  lookup name := by rw [lookup_put, History.last?_concat, records.lookup]
  keys := by rw [keys_put, History.keys_concat, records.keys]
  nodup := by
    rw [keys_put]
    split
    · exact records.nodup
    next unknown =>
      rw [← concat_eq_append]
      exact records.nodup.concat unknown

end Object

/-! ### Operations -/

/-- An operation that changes a property, and the change that it makes: its arguments are objects of the heap,
and the key is a string. -/
inductive ObjectOperation.Makes (heap : Heap) : ObjectOperation → Text × Option Nat → Prop where
  | set {key value : Value} {name : Text} {place : Nat} (named : heap.key key = .ok name)
      (placed : heap.place value = .ok place) : Makes heap (.set key value) (name, some place)
  | delete {key : Value} {name : Text} (named : heap.key key = .ok name) :
      Makes heap (.delete key) (name, none)

namespace Heap

variable {heap : Heap} {at_ : Nat} {object : Object} {operation : ObjectOperation} {history : History}

def performAll (heap : Heap) (at_ : Nat) (operations : List ObjectOperation) : Except Fault Heap :=
  operations.foldlM (fun heap operation => do return (← heap.perform at_ operation).1) heap

def change (heap : Heap) (at_ : Nat) (object : Object) (key : Text) (value : Option Nat) : Heap :=
  { objects := heap.objects.set at_ (object.put key value) }

theorem perform_of_makes {key : Text} {value : Option Nat} (found : heap.objects[at_]? = some object)
    (makes : operation.Makes heap (key, value)) :
    heap.perform at_ operation = .ok (heap.change at_ object key value, .undefined) := by
  cases makes with
  | set named placed => simp [perform, found, named, placed, change, bind, Except.bind, pure, Except.pure]
  | delete named => simp [perform, found, named, change, bind, Except.bind, pure, Except.pure]

/-- A change of properties leaves the kinds of all objects as they are. -/
theorem kind_change (found : heap.objects[at_]? = some object) (key : Text) (value : Option Nat)
    (v : Value) :
    ((heap.change at_ object key value).object? v).map Object.kind = (heap.object? v).map Object.kind := by
  cases v with
  | ref place =>
    by_cases same : at_ = place
    · subst same
      obtain ⟨inside, rfl⟩ := List.getElem?_eq_some_iff.mp found
      simp [object?, change, inside, Object.put]
    · simp [object?, change, same]
  | _ => rfl

theorem key_eq (heap : Heap) (v : Value) : heap.key v =
    match (heap.object? v).map Object.kind with
    | some (.string text) => .ok text
    | _ => .error (.precondition []) := by
  unfold key
  rcases heap.object? v with _ | ⟨kind, prototype, storage⟩
  · rfl
  · cases kind <;> rfl

theorem place_eq (heap : Heap) (v : Value) : heap.place v =
    match v, (heap.object? v).map Object.kind with
    | .ref place, some _ => .ok place
    | _, _ => .error (.precondition []) := by
  unfold place
  cases v with
  | ref place => cases heap.object? (.ref place) <;> rfl
  | _ => rfl

theorem makes_change {made : Text × Option Nat} (found : heap.objects[at_]? = some object) (key : Text)
    (value : Option Nat) (makes : operation.Makes heap made) :
    operation.Makes (heap.change at_ object key value) made := by
  cases makes with
  | set named placed =>
    refine .set ?_ ?_
    · rw [key_eq, kind_change found, ← key_eq, named]
    · rw [place_eq, kind_change found, ← place_eq, placed]
  | delete named =>
    refine .delete ?_
    rw [key_eq, kind_change found, ← key_eq, named]

/-- The object at a place has this history, and no prototype to fall back on; everything else is as it is in
the other heap. -/
structure Remembers (heap before : Heap) (at_ : Nat) (history : History) : Prop where
  object : ∃ object, heap.objects[at_]? = some object ∧ object.prototype = .null ∧ object.Records history
  others : ∀ place, place ≠ at_ → heap.objects[place]? = before.objects[place]?
  makes : ∀ (operation : ObjectOperation) change, operation.Makes before change → operation.Makes heap change

/-- What one change does. -/
theorem Remembers.step {before : Heap} {change : Text × Option Nat} (remembers : heap.Remembers before at_ history)
    (makes : operation.Makes before change) :
    ∃ heap', heap.perform at_ operation = .ok (heap', .undefined) ∧
      heap'.Remembers before at_ (history ++ [change]) := by
  obtain ⟨object, found, orphan, records⟩ := remembers.object
  obtain ⟨key, value⟩ := change
  have inside : at_ < heap.objects.length := (List.getElem?_eq_some_iff.mp found).1
  refine ⟨_, perform_of_makes found (remembers.makes _ _ makes), ?_, ?_, ?_⟩
  · exact ⟨object.put key value, by simp [Heap.change, inside], orphan, records.put key value⟩
  · intro place other
    rw [Heap.change, List.getElem?_set_ne other.symm, remembers.others place other]
  · intro operation made makes
    exact makes_change found key value (remembers.makes operation made makes)

variable {operations : List ObjectOperation}

theorem Remembers.run {before : Heap} {changes : History}
    (makes : List.Forall₂ (ObjectOperation.Makes before) operations changes)
    (remembers : heap.Remembers before at_ history) :
    ∃ heap', heap.performAll at_ operations = .ok heap' ∧ heap'.Remembers before at_ (history ++ changes) := by
  induction makes generalizing heap history with
  | nil => exact ⟨heap, rfl, by rwa [append_nil]⟩
  | @cons operation change operations changes first rest ih =>
    obtain ⟨next, performed, remembers'⟩ := remembers.step first
    obtain ⟨heap', performedAll, remembers''⟩ := ih remembers'
    refine ⟨heap', ?_, by rwa [append_assoc] at remembers''⟩
    rw [← performedAll, performAll, foldlM_cons, performed]
    rfl

/-- What the object at a place tells about its history. A key counts as present once it has been changed,
even if it was deleted last; reading a key that is present gives no value, and any other key is missing. -/
structure Tells (heap : Heap) (at_ : Nat) (history : History) : Prop where
  get : ∀ key name, heap.key key = .ok name → heap.perform at_ (.get key) =
    if name ∈ history.keys then .ok (heap, .undefined) else .error .missingKey
  has : ∀ key name, heap.key key = .ok name →
    heap.perform at_ (.has key) = .ok (heap, .boolean (decide (name ∈ history.keys)))
  ownKeys : heap.perform at_ .ownKeys =
    .ok (heap, .table (history.keys.zipIdx.map fun entry => (Text.ofNat entry.2, entry.1)))

/-- Without a prototype there is a value for no key, and an answer for those that are listed. -/
theorem get_eq (orphan : object.prototype = .null) (name : Text) :
    get object name = if name ∈ object.keys then .ok .undefined else .error .missingKey := by
  unfold get
  cases looked : object.storage.lookup name with
  | none => rw [if_neg (Object.lookup_eq_none.mp looked)]
  | some value =>
    have listed : name ∈ object.keys := by
      by_contra unlisted
      rw [Object.lookup_eq_none.mpr unlisted] at looked
      cases looked
    rw [if_pos listed, orphan]
    cases value <;> rfl

theorem Remembers.tells {before : Heap} (remembers : heap.Remembers before at_ history) :
    heap.Tells at_ history := by
  obtain ⟨object, found, orphan, records⟩ := remembers.object
  constructor
  · intro key name named
    have read := get_eq orphan name
    rw [records.keys] at read
    by_cases present : name ∈ history.keys
    · rw [if_pos present] at read ⊢
      simp only [perform, found, named, bind, Except.bind, read]
      rfl
    · rw [if_neg present] at read ⊢
      simp only [perform, found, named, bind, Except.bind, read]
  · intro key name named
    simp only [perform, found, named, Object.has_eq, records.keys]
    rfl
  · simp only [perform, found, records.keys, numbered]
    rfl

/-- Any sequence of changes of an object that is fresh and has no prototype is recorded faithfully: the storage
knows the last change of each key, nothing else in the heap is changed, and the keys are listed once each.
What the object tells of this is only which keys were ever changed. -/
theorem changes_recorded {heap : Heap} {at_ : Nat} {object : Object}
    {history : History} (found : heap.objects[at_]? = some object) (orphan : object.prototype = .null)
    (fresh : object.storage = []) (makes : List.Forall₂ (ObjectOperation.Makes heap) operations history) :
    ∃ heap' object', heap.performAll at_ operations = .ok heap' ∧ heap'.objects[at_]? = some object' ∧
      (∀ place, place ≠ at_ → heap'.objects[place]? = heap.objects[place]?) ∧
      (∀ key, object'.storage.lookup key = history.last? key) ∧
      history.keys.Nodup ∧ (∀ key, key ∈ history.keys ↔ ∃ value, (key, value) ∈ history) ∧
      heap'.Tells at_ history := by
  have begun : heap.Remembers heap at_ [] :=
    ⟨⟨object, found, orphan, .fresh fresh⟩, fun _ _ => rfl, fun _ _ => id⟩
  obtain ⟨heap', performed, remembers⟩ := begun.run makes
  rw [nil_append] at remembers
  obtain ⟨object', found', -, records⟩ := remembers.object
  refine ⟨heap', object', performed, found', remembers.others, records.lookup, ?_, ?_, remembers.tells⟩
  · exact records.keys ▸ records.nodup
  · intro key
    simp [History.keys, mem_eraseDups]

/-- A key is set, deleted, and another one set: both count as present, and no value can be read. -/
theorem changes_recorded_deleted :
    let a : Text := Text.ofString "a"
    let b : Text := Text.ofString "b"
    let heap : Heap := { objects := [{ kind := .plain }, { kind := .string a }, { kind := .string b }] }
    ∃ heap' object',
      heap.performAll 0 [.set (.ref 1) (.ref 2), .delete (.ref 1), .set (.ref 2) (.ref 1)] = .ok heap' ∧
      heap'.objects[0]? = some object' ∧ object'.storage.lookup a = some none ∧
      object'.storage.lookup b = some (some 1) ∧
      heap'.Tells 0 [(a, some 2), (a, none), (b, some 1)] := by
  intro a b heap
  have makes : List.Forall₂ (ObjectOperation.Makes heap)
      [.set (.ref 1) (.ref 2), .delete (.ref 1), .set (.ref 2) (.ref 1)]
      [(a, some 2), (a, none), (b, some 1)] :=
    .cons (.set rfl rfl) (.cons (.delete rfl) (.cons (.set rfl rfl) .nil))
  have fresh : heap.objects[0]? = some { kind := .plain } := rfl
  obtain ⟨heap', object', performed, found, -, recorded, -, -, tells⟩ :=
    changes_recorded fresh rfl rfl makes
  exact ⟨heap', object', performed, found, recorded a, recorded b, tells⟩

end Heap

end EcmaScript
