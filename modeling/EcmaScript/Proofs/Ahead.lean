import EcmaScript.Proofs.Scanning

/-!
The text ahead of an index as a list, so that a reader can be followed along it. A cursor that has
only moved took a text and left the rest; a run takes the longest part whose characters belong to its
class.
-/

namespace EcmaScript

open Scan Character List Source

variable {src : Source} {index : Nat} {text rest : Text}

/-! ### The text ahead -/

/-- What the source holds from an index on. -/
def Source.ahead (src : Source) (index : Nat) : Text :=
  src.toList.drop index

variable {ch : CodePoint}

namespace Source

theorem getElem?_ahead (src : Source) (index offset : Nat) :
    src[index + offset]? = (src.ahead index)[offset]? := by
  rw [ahead, List.getElem?_drop, Array.getElem?_toList]

theorem slice_ahead (src : Source) (index count : Nat) :
    src.slice index (index + count) = (src.ahead index).take count := by
  rw [slice, ahead, Array.toList_extract, extract_eq_drop_take', take_drop]

theorem ahead_add (src : Source) (index count : Nat) :
    src.ahead (index + count) = (src.ahead index).drop count := by
  rw [ahead, ahead, drop_drop]

theorem length_ahead (src : Source) (index : Nat) : (src.ahead index).length = src.size - index := by
  simp [ahead]

/-- What stands after a text. -/
theorem ahead_append (found : src.ahead index = text ++ rest) :
    src.ahead (index + text.length) = rest := by
  rw [ahead_add, found, drop_left]

theorem ahead_cons (found : src.ahead index = ch :: rest) : src.ahead (index + 1) = rest := by
  rw [ahead_add, found, drop_succ_cons, drop_zero]

theorem getElem?_head (found : src.ahead index = ch :: rest) : src[index]? = some ch := by
  rw [← Nat.add_zero index, getElem?_ahead, found, List.getElem?_cons_zero]

theorem ahead_of_found (found : src[index]? = some ch) :
    src.ahead index = ch :: src.ahead (index + 1) := by
  obtain ⟨inside, rfl⟩ := Array.getElem?_eq_some_iff.mp found
  exact drop_eq_getElem_cons inside

theorem lt_size_of_ahead (found : src.ahead index = ch :: rest) : index < src.size := by
  have length := src.length_ahead index
  rw [found, length_cons] at length
  omega

theorem exists_ahead (inside : index < src.size) : ∃ ch rest, src.ahead index = ch :: rest := by
  refine exists_cons_of_ne_nil fun none => ?_
  have length := src.length_ahead index
  rw [none, length_nil] at length
  omega

theorem exists_append (found : ∀ k ch, text[k]? = some ch → src[index + k]? = some ch) :
    ∃ rest, src.ahead index = text ++ rest := by
  refine ⟨(src.ahead index).drop text.length, ?_⟩
  have taken : (src.ahead index).take text.length = text := by
    refine ext_getElem? fun k => ?_
    rw [List.getElem?_take]
    split
    next inside =>
      have here := List.getElem?_eq_getElem inside
      rw [here, ← getElem?_ahead, found k _ here]
    next outside => rw [List.getElem?_eq_none (Nat.le_of_not_lt outside)]
  exact (take_append_drop text.length _).symm.trans (congrArg (· ++ _) taken)

theorem getElem?_append {k : Nat} (found : src.ahead index = text ++ rest)
    (here : text[k]? = some ch) : src[index + k]? = some ch := by
  have inside := (List.getElem?_eq_some_iff.mp here).1
  rw [getElem?_ahead, found, List.getElem?_append_left inside, here]

theorem slice_append (found : src.ahead index = text ++ rest) :
    src.slice index (index + text.length) = text := by
  rw [slice_ahead, found, take_left]

end Source

namespace Text

/-- The text does not go on with a character of the class. -/
def Stops (member : CodePoint → Bool) (text : Text) : Prop :=
  ∀ ch more, text = ch :: more → member ch = false

variable {member : CodePoint → Bool} {taken left other more : Text}

theorem stops_nil : Stops member [] :=
  nofun

theorem stops_cons_iff : Stops member (ch :: more) ↔ member ch = false := by
  constructor
  · exact fun stops => stops ch more rfl
  · rintro outside _ _ ⟨⟩
    exact outside

theorem stops_cons (outside : member ch = false) : Stops member (ch :: more) :=
  stops_cons_iff.mpr outside

theorem Stops.imp {narrow : CodePoint → Bool} (stops : Stops member left)
    (within : ∀ ch, narrow ch = true → member ch = true) : Stops narrow left := by
  intro ch more starts
  have outside := stops ch more starts
  exact Bool.eq_false_iff.mpr fun inside => absurd (within ch inside) (by simp [outside])

/-- Every text has a longest part of a class at its start. -/
theorem exists_span (member : CodePoint → Bool) (text : Text) : ∃ taken left, text = taken ++ left ∧
    (∀ ch ∈ taken, member ch = true) ∧ Stops member left := by
  induction text with
  | nil => exact ⟨[], [], rfl, by simp, stops_nil⟩
  | cons ch text ih =>
    cases inside : member ch with
    | false => exact ⟨[], ch :: text, rfl, by simp, stops_cons inside⟩
    | true =>
      obtain ⟨taken, left, rfl, all, stops⟩ := ih
      exact ⟨ch :: taken, left, rfl, by simpa [inside] using all, stops⟩

theorem span_or_shorter (same : taken ++ left = other ++ more) (stops : Stops member left)
    (all : ∀ ch ∈ other, member ch = true) :
    other = taken ∧ more = left ∨ other.length < taken.length := by
  rcases append_eq_append_iff.mp same with ⟨extra, rfl, rfl⟩ | ⟨extra, rfl, rfl⟩
  · cases extra with
    | nil => exact .inl ⟨append_nil _, rfl⟩
    | cons ch extra =>
      have inside := all ch (by simp)
      rw [stops ch _ rfl] at inside
      cases inside
  · cases extra with
    | nil => exact .inl ⟨(append_nil _).symm, rfl⟩
    | cons ch extra => exact .inr (by simp)

theorem span_unique (same : taken ++ left = other ++ more)
    (all : ∀ ch ∈ taken, member ch = true) (stops : Stops member left)
    (all' : ∀ ch ∈ other, member ch = true) (stops' : Stops member more) :
    other = taken ∧ more = left := by
  rcases span_or_shorter same stops all' with unique | shorter
  · exact unique
  · rcases span_or_shorter same.symm stops' all with unique | shorter'
    · exact ⟨unique.1.symm, unique.2.symm⟩
    · omega

end Text

variable {member : CodePoint → Bool}

namespace Scan

theorem runLength_eq (member : CodePoint → Bool) (bound : Nat) :
    ∀ index, runLength src member bound index =
      (((src.ahead index).take bound).takeWhile member).length := by
  induction bound with
  | zero => simp [runLength]
  | succ bound ih =>
    intro index
    cases found : src.ahead index with
    | nil =>
      have first := src.getElem?_ahead index 0
      rw [Nat.add_zero, found] at first
      simp [runLength, first]
    | cons ch more =>
      simp only [runLength, getElem?_head found, take_succ_cons, takeWhile_cons]
      split
      next => rw [ih, ahead_cons found, length_cons]
      next => rfl

variable {c : Cursor} {fails : ScanFault → Cursor → Prop}

theorem spanAt_text (found : src.ahead index = text ++ rest)
    (all : ∀ ch ∈ text, member ch = true) (stops : Text.Stops member rest) :
    spanAt src member index = text.length := by
  rw [spanAt, runLength_eq, ← src.length_ahead, take_length, found, takeWhile_append_of_pos all]
  cases rest with
  | nil => simp
  | cons ch more => simp [stops ch more rfl]

theorem run_text {returns : Text → Cursor → Prop}
    (found : src.ahead c.index = text ++ rest) (all : ∀ ch ∈ text, member ch = true)
    (stops : Text.Stops member rest)
    (met : returns text { c with index := c.index + text.length }) :
    Meets (run src member) c returns fails := by
  rw [run_iff, spanAt_text found all stops, slice_append found]
  exact met

theorem current_ahead {α : Type} {f : CodePoint → ScanM α} {after : α → Cursor → Prop}
    (found : src.ahead c.index = ch :: rest) (next : Meets (f ch) c after fails) :
    Meets (current src >>= f) c after fails :=
  ahead_found (getElem?_head found) next

theorem next_ahead {α : Type} {f : CodePoint → ScanM α} {after : α → Cursor → Prop} (found : src.ahead c.index = ch :: rest)
    (met : Meets (f ch) { c with index := c.index + 1 } after fails) :
    Meets (next src >>= f) c after fails :=
  .into (current_ahead found met)

theorem atEnd_ahead {α : Type} {yes no : ScanM α} {after : α → Cursor → Prop}
    (found : src.ahead c.index = ch :: rest) (inside : Meets no c after fails) :
    Meets (do if ← atEnd src then yes else no) c after fails :=
  atEnd_ite (fun ended => absurd (lt_size_of_ahead found) (Nat.not_lt.mpr ended)) fun _ => inside

end Scan

/-- From `c` to `d` the cursor only moved: it took a text and has the rest ahead. -/
structure Cursor.Took (src : Source) (c : Cursor) (text rest : Text) (d : Cursor) : Prop where
  cursor : d = { c with index := c.index + text.length }
  found : src.ahead c.index = text ++ rest

namespace Cursor.Took

variable {c d : Cursor} {ch : CodePoint} {more : Text} {α : Type} {f : CodePoint → ScanM α}
variable {after : α → Cursor → Prop} {fails : ScanFault → Cursor → Prop}

theorem start : c.Took src [] (src.ahead c.index) c :=
  ⟨rfl, rfl⟩

section

variable (took : c.Took src text rest d)
include took

theorem ahead : src.ahead d.index = rest := by
  rw [took.cursor]
  exact ahead_append took.found

/-- The character at the cursor is the first one ahead. -/
theorem lookup : src[d.index]? = rest.head? := by
  have first := src.getElem?_ahead d.index 0
  rw [took.ahead, Nat.add_zero] at first
  rw [first, List.head?_eq_getElem?]

theorem index_eq : d.index = c.index + text.length := by
  rw [took.cursor]

theorem slice : src.slice c.index d.index = text := by
  rw [took.cursor]
  exact slice_append took.found

theorem reaches (bound : c.index ≤ src.size) : c.Reaches src d := by
  have length := src.length_ahead c.index
  rw [took.found, length_append] at length
  rw [took.cursor]
  exact ⟨Nat.le_add_right .., by dsimp only; omega, rfl⟩

theorem early {length : Nat} (ends : Sealed src length)
    (visible : 0x20 ∉ text) (early : c.index ≤ length) : d.index ≤ length := by
  refine Nat.le_of_not_lt fun past => visible ?_
  rw [took.index_eq] at past
  have here := List.getElem?_eq_getElem (show length - c.index < text.length by omega)
  have blank := Source.getElem?_append took.found here
  rw [Nat.add_sub_cancel' early, ends.blank] at blank
  rw [Option.some.inj blank]
  exact getElem_mem _

end

theorem append (took : c.Took src text (more ++ rest) d) :
    c.Took src (text ++ more) rest { d with index := d.index + more.length } := by
  refine ⟨?_, by rw [took.found, append_assoc]⟩
  rw [took.cursor, length_append]
  simp only [Nat.add_assoc]

theorem skip (took : c.Took src text (ch :: rest) d) :
    c.Took src (text ++ [ch]) rest { d with index := d.index + 1 } :=
  append (show c.Took src text ([ch] ++ rest) d from took)

theorem current (took : c.Took src text (ch :: rest) d) (met : Meets (f ch) d after fails) :
    Meets (Scan.current src >>= f) d after fails :=
  current_ahead took.ahead met

theorem missing (took : c.Took src text [] d) (failed : fails .pastEnd d) :
    Meets (Scan.current src >>= f) d after fails := by
  refine .into (.get_bind ?_)
  rw [Nat.add_zero, took.lookup]
  exact failed

theorem run {f : Text → ScanM α} (took : c.Took src text (more ++ rest) d)
    (all : ∀ ch ∈ more, member ch = true) (stops : Text.Stops member rest)
    (met : ∀ e, c.Took src (text ++ more) rest e → Meets (f more) e after fails) :
    Meets (Scan.run src member >>= f) d after fails :=
  .into (run_text took.ahead all stops (met _ took.append))

end Cursor.Took

end EcmaScript
