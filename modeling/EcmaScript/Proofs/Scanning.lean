import EcmaScript.Proofs.Outcome
import EcmaScript.Proofs.Sentinel

/-!
Scanners move forward, stay inside the source and leave the open braces alone, and when they fail it
is for a reason that concerns the program. Characters are looked at without a test only behind a
character that is not the last one of a sealed source, so that none is missing there; in any other
source a scanner may run past the end, though never from a closing brace, and this is the only other
fault it has.
-/

namespace EcmaScript

variable {α β : Type}

/-- The faults that a scanner may end in, and where. -/
def Excused (src : Source) (fault : ScanFault) (c : Cursor) : Prop :=
  match fault with
  | .illegal | .unterminatedRegExp | .templateOctal => True
  | .pastEnd => (∀ length, ¬ Sealed src length) ∧ src[c.index]? ≠ some 0x7D
  | .noOpenBrace | .noContext | .notNumeric | .notString | .notRegExp | .noNumber | .exhausted => False

/-- In a sealed source there is a character at this index. -/
def Roomy (src : Source) (index : Nat) : Prop :=
  ∀ length, Sealed src length → index < src.size

namespace Roomy

variable {src : Source} {index : Nat} {ch : CodePoint}

theorem of_lt (inside : index < src.size) : Roomy src index :=
  fun _ _ => inside

theorem of_found (found : src[index]? = some ch) : Roomy src index :=
  of_lt (Array.getElem?_eq_some_iff.mp found).1

/-- There is room behind any character but the last one of the sentinel. -/
theorem after (found : src[index]? = some ch) (other : ch ≠ 0x44) : Roomy src (index + 1) :=
  fun _ ends => ends.room found other

end Roomy

/-- `d` lies at or behind `c` in the source, with the same braces open. -/
structure Cursor.Reaches (src : Source) (c d : Cursor) : Prop where
  index : c.index ≤ d.index
  bound : d.index ≤ src.size
  braces : d.braces = c.braces

namespace Cursor.Reaches

variable {src : Source} {c d e : Cursor}

theorem refl (bound : c.index ≤ src.size) : c.Reaches src c :=
  ⟨Nat.le_refl _, bound, rfl⟩

theorem trans (first : c.Reaches src d) (second : d.Reaches src e) : c.Reaches src e :=
  ⟨Nat.le_trans first.index second.index, second.bound, second.braces.trans first.braces⟩

theorem skip (reach : c.Reaches src d) (n : Nat) (index : e.index = d.index + n)
    (bound : d.index + n ≤ src.size) (braces : e.braces = d.braces) : c.Reaches src e :=
  reach.trans ⟨by omega, by omega, braces⟩

end Cursor.Reaches

namespace Scan

variable {src : Source} {c : Cursor} {m : ScanM α} {f : CodePoint → ScanM β}
variable {returns : α → Cursor → Prop} {after : β → Cursor → Prop}
variable {fails : ScanFault → Cursor → Prop}

/-- A loop over the source ends if every round that goes on moves the cursor. -/
theorem repeated_meets {body : α → ScanM (α ⊕ β)} (holds : α → Cursor → Prop)
    (bounded : ∀ a c, holds a c → c.index ≤ src.size) (round : ∀ a c, holds a c →
      Meets (body a) c (Sum.elim (fun a d => holds a d ∧ c.index < d.index) after) fails)
    {a : α} (holds_a : holds a c) : Meets (repeated src body a) c after fails := by
  refine Meets.iterate holds (fun d => src.size - d.index) (fun a c holds_a => ?_) _ a c holds_a ?_
  · refine (round a c holds_a).imp fun answer d met => ?_
    cases answer with
    | inl next =>
      obtain ⟨holds_next, moved⟩ := met
      have bound := bounded next d holds_next
      exact ⟨holds_next, by omega⟩
    | inr answer => exact met
  · omega

theorem atEnd_ite {yes no : ScanM α} (ended : src.size ≤ c.index → Meets yes c returns fails)
    (inside : c.index < src.size → Meets no c returns fails) :
    Meets (do if ← atEnd src then yes else no) c returns fails := by
  refine .into (.get_bind (.pure ?_))
  split
  next ends => exact ended (of_decide_eq_true ends)
  next ends => exact inside (Nat.lt_of_not_le fun past => ends (decide_eq_true past))

theorem ahead_or {offset : Nat} (room : Roomy src (c.index + offset))
    (other : src[c.index + offset]? = none → src[c.index]? ≠ some 0x7D)
    (missing : (∀ length, ¬ Sealed src length) → src[c.index]? ≠ some 0x7D → fails .pastEnd c)
    (reads : ∀ ch, src[c.index + offset]? = some ch → Meets (f ch) c after fails) :
    Meets (ahead src offset >>= f) c after fails := by
  refine .into (.get_bind ?_)
  split
  next ch found => exact reads ch found
  next none =>
    refine missing (fun length ends => ?_) (other none)
    exact absurd (room length ends) (Nat.not_lt.mpr (Array.getElem?_eq_none_iff.mp none))

theorem ahead_bind {offset : Nat} (room : Roomy src (c.index + offset))
    (other : src[c.index + offset]? = none → src[c.index]? ≠ some 0x7D)
    (reads : ∀ ch, src[c.index + offset]? = some ch → Meets (f ch) c after (Excused src)) :
    Meets (ahead src offset >>= f) c after (Excused src) :=
  ahead_or room other (fun sealed_ other => ⟨sealed_, other⟩) reads

theorem current_bind (room : Roomy src c.index)
    (reads : ∀ ch, src[c.index]? = some ch → Meets (f ch) c after (Excused src)) :
    Meets (current src >>= f) c after (Excused src) :=
  ahead_bind room (fun missing isBrace => nomatch missing.symm.trans isBrace) reads

theorem ahead_found {offset : Nat} {ch : CodePoint} (found : src[c.index + offset]? = some ch)
    (next : Meets (f ch) c after fails) : Meets (ahead src offset >>= f) c after fails := by
  refine .into (.get_bind ?_)
  simp only [found]
  exact next

theorem ahead_returns (offset : Nat) :
    Meets (ahead src offset) c (fun ch d => d = c ∧ src[c.index + offset]? = some ch) anyFault := by
  refine .get_bind ?_
  split
  next ch found => exact ⟨rfl, found⟩
  next => trivial

theorem next_returns : Meets (next src) c
    (fun ch d => d = { c with index := c.index + 1 } ∧ src[c.index]? = some ch) anyFault := by
  refine (ahead_returns 0).bind fun ch d seen => ?_
  obtain ⟨rfl, found⟩ := seen
  exact ⟨rfl, found⟩

/-- The length of the run at an index. -/
def spanAt (src : Source) (member : CodePoint → Bool) (index : Nat) : Nat :=
  runLength src member (src.size - index) index

theorem run_iff {member : CodePoint → Bool} {returns : Text → Cursor → Prop} :
    Meets (run src member) c returns fails ↔
      returns (src.slice c.index (c.index + spanAt src member c.index))
        { c with index := c.index + spanAt src member c.index } :=
  Iff.rfl

theorem slice_getElem? {start stop i : Nat} (inside : start + i < stop) :
    (src.slice start stop)[i]? = src[start + i]? := by
  simp only [Source.slice, Array.getElem?_toList, Array.getElem?_extract]
  split
  · rfl
  · rw [Array.getElem?_eq_none]
    omega

theorem closeBrace_meets {braces : List Brace} (opened : c.braces = some braces)
    (nonempty : braces ≠ []) :
    Meets closeBrace c (fun _ d => d = { c with braces := some braces.dropLast }) fails := by
  refine .get_bind ?_
  cases braces with
  | nil => exact absurd rfl nonempty
  | cons first rest =>
    simp only [opened]
    exact rfl

end Scan

/-! ### Layout -/

namespace Layout

open Scan Character

variable {src : Source} {c : Cursor}

/-- No comment starts at this index. -/
def NoComment (src : Source) (index : Nat) : Prop :=
  src[index]? = some 0x2F → ∃ ch, src[index + 1]? = some ch ∧ ch ≠ 0x2F ∧ ch ≠ 0x2A

theorem slice_length {start stop : Nat} : (src.slice start stop).length = min stop src.size - start := by
  simp only [Source.slice, Array.length_toList, Array.size_extract]

/-! ### Where layout ends at once -/

/-- A token starts at this index; `fresh` tells whether only layout stands before it on its line. -/
def Solid (src : Source) (fresh : Bool) (index : Nat) : Prop :=
  ∃ ch, src[index]? = some ch ∧ isWhiteSpace ch = false ∧ isLineTerminator ch = false ∧
    NoComment src index ∧ (ch = 0x2D → fresh = false) ∧
    (ch = 0x3C → src.slice (index + 1) (index + 4) ≠ Text.ofString "!--")

theorem Solid.of_semicolon {fresh : Bool} {index : Nat} (found : src[index]? = some 0x3B) :
    Solid src fresh index := by
  refine ⟨0x3B, found, by decide, by decide, fun slash => ?_, nofun, nofun⟩
  rw [found] at slash
  cases slash

theorem Solid.of_slash {fresh : Bool} {index : Nat} (found : src[index]? = some 0x2F)
    (plain : NoComment src index) : Solid src fresh index :=
  ⟨0x2F, found, by decide, by decide, plain, nofun, nofun⟩

section

variable {fails : ScanFault → Cursor → Prop}

theorem piece_solid {fresh : Bool} {returns : Bool ⊕ Unit → Cursor → Prop}
    (solid : Solid src fresh c.index) (stays : returns (.inr ()) c) :
    Meets (piece src fresh) c returns fails := by
  obtain ⟨ch, found, visible, sameLine, plain, notClosing, notOpening⟩ := solid
  have inside := (Array.getElem?_eq_some_iff.mp found).1
  refine atEnd_ite (fun ended => absurd inside (Nat.not_lt.mpr ended)) fun _ => ?_
  refine ahead_found found ?_
  rw [if_neg (by simp [visible]), if_neg (by simp [sameLine])]
  refine .ite (fun isSlash => ?_) fun _ => .ite (fun isMinus => ?_) fun _ => ?_
  · obtain ⟨ch', found', notLine, notBlock⟩ := plain (isSlash ▸ found)
    refine ahead_found found' ?_
    rw [if_neg notLine, if_neg notBlock]
    exact stays
  · simp_all
  · refine .ite (fun isLess => ?_) fun _ => stays
    refine .get_bind ?_
    rw [if_neg (notOpening isLess)]
    exact stays

theorem skipAll_solid {returns : Unit → Cursor → Prop} (solid : Solid src (c.index = 0) c.index)
    (stays : returns () { c with lineBreak := some false }) :
    Meets (skipAll src) c returns fails := by
  refine .modify_bind (.get_bind ?_)
  exact .into (piece_solid solid stays)

theorem skipAll_solid_ok {between : Cursor} (solid : Solid src (c.index = 0) c.index)
    (run : skipAll src c = .ok () between) : between = { c with lineBreak := some false } := by
  have stays : Meets (skipAll src) c (fun _ d => d = { c with lineBreak := some false }) anyFault :=
    skipAll_solid solid rfl
  have stayed := stays.of_ok run
  exact stayed

end

end Layout

end EcmaScript
