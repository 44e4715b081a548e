import EcmaScript.Proofs.Fetching
import EcmaScript.Proofs.Gaps

/-!
One source laid over another. Over a stretch of the source on the left its characters stand on the
right as well, at the same distance from some index, and there a blank comes behind them. What is read
from the stretch is read in the same way on both sides, unless it goes on behind it: a scanner that
comes to rest by the end of the stretch has looked at nothing behind it but the character that follows,
and there the blank ends whatever was ended by the character on the left.
-/

namespace EcmaScript

open Scan Character

theorem slice_congr {left right : Source} {i j m n : Nat} (stops : ∀ k, i + k < m ↔ j + k < n)
    (same : ∀ k, i + k < m → right[j + k]? = left[i + k]?) : right.slice j n = left.slice i m := by
  apply List.ext_getElem?
  intro k
  by_cases within : i + k < m
  · rw [slice_getElem? within, slice_getElem? ((stops k).mp within), same k within]
  · have beyond := mt (stops k).mpr within
    rw [List.getElem?_eq_none, List.getElem?_eq_none] <;> rw [Layout.slice_length] <;> omega

/-- The stretch from `leftBase` up to `stop` on the left lies over the one from `rightBase` on. The
braces on the right are those on the left inside some others. `same` tells whether both sides have
to see the same line breaks. -/
structure Overlay where
  left : Source
  right : Source
  leftBase : Nat
  rightBase : Nat
  stop : Nat
  length : Nat
  outer : List Brace
  same : Prop
  blank : CodePoint
  isBlank : blank ∈ whiteSpace
  ends : Sealed left length
  inside : stop < left.size
  chars : ∀ {i j : Nat}, leftBase ≤ i → i < stop → i + rightBase = j + leftBase →
    right[j]? = left[i]?
  here : ∀ {j : Nat}, leftBase ≤ stop → stop + rightBase = j + leftBase → right[j]? = some blank

namespace Overlay

variable {α β γ : Type} {o : Overlay} {c d : Cursor} {ch : CodePoint}

/-- The cursor on the left lies over the one on the right. -/
structure Abreast (o : Overlay) (c d : Cursor) : Prop where
  behind : o.leftBase ≤ c.index
  index : c.index + o.rightBase = d.index + o.leftBase
  braces : ∃ inner, c.braces = some inner ∧ d.braces = some (o.outer ++ inner)
  lineBreak : o.same → c.lineBreak = d.lineBreak

theorem Abreast.move {c' d' : Cursor} (abreast : o.Abreast c d) (n : Nat)
    (index : c'.index = c.index + n ∧ d'.index = d.index + n)
    (braces : c'.braces = c.braces ∧ d'.braces = d.braces)
    (lineBreak : o.same → c'.lineBreak = d'.lineBreak) : o.Abreast c' d' := by
  have behind := abreast.behind
  have starts := abreast.index
  refine ⟨by omega, by omega, ?_, lineBreak⟩
  rw [braces.1, braces.2]
  exact abreast.braces

theorem Abreast.skip (abreast : o.Abreast c d) (n : Nat) :
    o.Abreast { c with index := c.index + n } { d with index := d.index + n } :=
  abreast.move n ⟨rfl, rfl⟩ ⟨rfl, rfl⟩ abreast.lineBreak

/-- What no blank is, the blank is not. -/
theorem apart (o : Overlay) (ch : CodePoint) (other : ch ∉ whiteSpace) : o.blank ≠ ch :=
  fun same => other (same ▸ o.isBlank)

theorem slice_eq (o : Overlay) {i j m n : Nat} (behind : o.leftBase ≤ i)
    (starts : i + o.rightBase = j + o.leftBase) (stops : ∀ k, i + k < m ↔ j + k < n)
    (early : m ≤ o.stop) : o.right.slice j n = o.left.slice i m :=
  slice_congr stops fun k within => o.chars (by omega) (by omega) (by omega)

/-! ### Scanners on both sides -/

/-- The cursor never goes back over a scanner on the left, and where it comes to rest by the end of the
stretch the scanner on the right comes along, with an answer like the one on the left. -/
def Repeats (o : Overlay) (alike : α → β → Prop) (m : ScanM α) (n : ScanM β) (c : Cursor) : Prop :=
  o.leftBase ≤ c.index → ∀ a c', m c = .ok a c' → c.index ≤ c'.index ∧
    (c'.index ≤ o.stop → ∀ d, o.Abreast c d →
      Meets n d (fun b d' => alike a b ∧ o.Abreast c' d') (only .exhausted))

namespace Repeats

variable {m m' : ScanM α} {n n' : ScanM β} {alike : α → β → Prop}

theorem grows (repeats : o.Repeats alike m n c) (behind : o.leftBase ≤ c.index) :
    Meets m c (fun _ d => c.index ≤ d.index) anyFault :=
  .of_returns fun a d run => (repeats behind a d run).1

theorem of_never (fails : Meets m c (fun _ _ => False) anyFault) : o.Repeats alike m n c := by
  intro _ a d run
  have impossible := fails.of_ok run
  exact impossible.elim

theorem throw {fault : ScanFault} : o.Repeats alike (throw fault : ScanM α) n c :=
  of_never trivial

/-- Answers may depend on the source where the cursor is by the end of the stretch. -/
theorem pure_of {a : α} {b : β} (holds : c.index ≤ o.stop → alike a b) :
    o.Repeats alike (pure a) (pure b) c := by
  intro _ a' d run
  cases run
  exact ⟨Nat.le_refl _, fun early _ abreast => ⟨holds early, abreast⟩⟩

theorem pure {a : α} {b : β} (holds : alike a b) : o.Repeats alike (pure a) (pure b) c :=
  pure_of fun _ => holds

/-- Both sides only move the cursor. -/
theorem of_move {a : α} {b : β} {c' : Cursor} {moved : Cursor → Cursor} (left : m c = .ok a c')
    (right : ∀ d, n d = .ok b (moved d)) (grown : c.index ≤ c'.index) (holds : alike a b)
    (moves : ∀ d, o.Abreast c d → o.Abreast c' (moved d)) : o.Repeats alike m n c := by
  intro _ a' e run
  cases left.symm.trans run
  refine ⟨grown, fun _ d abreast => ?_⟩
  unfold Meets
  rw [right]
  exact ⟨holds, moves d abreast⟩

theorem past (early : c.index ≤ o.stop)
    (moves : Meets m c (fun _ d => o.stop < d.index) anyFault) : o.Repeats alike m n c := by
  intro _ a d run
  have moved : o.stop < d.index := by
    have met := moves.of_ok run
    exact met
  exact ⟨by omega, fun early => by omega⟩

theorem of_early (grown : Meets m c (fun _ d => c.index ≤ d.index) anyFault)
    (repeats : c.index ≤ o.stop → o.Repeats alike m n c) : o.Repeats alike m n c := by
  intro behind a d run
  have met : c.index ≤ d.index := by
    have met := grown.of_ok run
    exact met
  exact ⟨met, fun early => (repeats (Nat.le_trans met early) behind a d run).2 early⟩

theorem bind {n : ScanM α} {f : α → ScanM β} {g : α → ScanM γ} {alike : β → γ → Prop}
    (first : o.Repeats Eq m n c) (next : ∀ a d, m c = .ok a d → o.Repeats alike (f a) (g a) d) :
    o.Repeats alike (m >>= f) (n >>= g) c := by
  intro behind b e run
  obtain ⟨a, d, begun, run⟩ := bind_ok_iff.mp run
  obtain ⟨grown, goes⟩ := first behind a d begun
  obtain ⟨grown', goes'⟩ := next a d begun (Nat.le_trans behind grown) b e run
  refine ⟨Nat.le_trans grown grown', fun early d abreast => ?_⟩
  refine (goes (Nat.le_trans grown' early) d abreast).bind ?_
  rintro _ d' ⟨rfl, abreast'⟩
  exact goes' early d' abreast'

theorem get_bind {f : Cursor → ScanM α} {g : Cursor → ScanM β}
    (next : o.leftBase ≤ c.index → ∀ d : Cursor, c.index + o.rightBase = d.index + o.leftBase →
      o.Repeats alike (f c) (g d) c) : o.Repeats alike (get >>= f) (get >>= g) c := by
  intro behind a c' run
  have some : c.index + o.rightBase = c.index + o.rightBase - o.leftBase + o.leftBase := by omega
  refine ⟨(next behind { c with index := _ } some behind a c' run).1, fun early d abreast => ?_⟩
  exact .get_bind ((next behind d abreast.index behind a c' run).2 early d abreast)

theorem modify_bind {h k : Cursor → Cursor} {f : Unit → ScanM α} {g : Unit → ScanM β}
    (grown : c.index ≤ (h c).index) (moves : ∀ d, o.Abreast c d → o.Abreast (h c) (k d))
    (next : o.Repeats alike (f ()) (g ()) (h c)) :
    o.Repeats alike (modify h >>= f) (modify k >>= g) c := by
  intro behind b e run
  obtain ⟨grown', goes⟩ := next (Nat.le_trans behind grown) b e run
  refine ⟨Nat.le_trans grown grown', fun early d abreast => .into ?_⟩
  exact goes early (k d) (moves d abreast)

theorem skip_bind {k : Nat} {f : Unit → ScanM α} {g : Unit → ScanM β}
    (next : o.Repeats alike (f ()) (g ()) { c with index := c.index + k }) :
    o.Repeats alike (skip k >>= f) (skip k >>= g) c :=
  modify_bind (Nat.le_add_right _ _) (fun _ abreast => abreast.skip k) next

theorem ite {p : Prop} [Decidable p] (yes : p → o.Repeats alike m n c)
    (no : ¬p → o.Repeats alike m' n' c) :
    o.Repeats alike (if p then m else m') (if p then n else n') c := by
  split
  next holds => exact yes holds
  next fails => exact no fails

theorem iterate {spent : ScanFault} {body body' : α → ScanM (α ⊕ β)}
    (round : ∀ a c, o.Repeats Eq (body a) (body' a) c) (rounds rounds' : Nat) (a : α) (c : Cursor) :
    o.Repeats Eq (EcmaScript.iterate spent body rounds a)
      (EcmaScript.iterate .exhausted body' rounds' a) c := by
  induction rounds generalizing rounds' a c with
  | zero => exact .throw
  | succ rounds ih =>
    have goes (rounds' : Nat) : o.Repeats Eq (EcmaScript.iterate spent body (rounds + 1) a)
        (EcmaScript.iterate .exhausted body' (rounds' + 1) a) c := by
      refine (round a c).bind fun answer d _ => ?_
      cases answer with
      | inl next => exact ih rounds' next d
      | inr found => exact .pure rfl
    cases rounds' with
    | zero => exact fun behind b d run => ⟨(goes 0 behind b d run).1, fun _ _ _ => rfl⟩
    | succ rounds' => exact goes rounds'

/-! ### Looking at characters -/

variable {f : CodePoint → ScanM α} {g : CodePoint → ScanM β}

theorem ahead_bind {k : Nat} (near : c.index + k ≤ o.stop ∨ o.stop < c.index)
    (same : c.index + k ≠ o.stop → ∀ ch, o.left[c.index + k]? = some ch →
      o.Repeats alike (f ch) (g ch) c)
    (atEnd : c.index + k = o.stop → ∀ ch, o.left[c.index + k]? = some ch →
      o.Repeats alike (f ch) (g o.blank) c) :
    o.Repeats alike (ahead o.left k >>= f) (ahead o.right k >>= g) c := by
  intro behind b c' run
  obtain ⟨ch, e, looked, rest⟩ := bind_ok_iff.mp run
  obtain ⟨rfl, found⟩ := (ahead_returns k).of_ok looked
  by_cases isEnd : e.index + k = o.stop
  · obtain ⟨grown, goes⟩ := atEnd isEnd ch found behind b c' rest
    refine ⟨grown, fun early d abreast => ahead_found (o.here (by omega) ?_) (goes early d abreast)⟩
    have index := abreast.index
    omega
  · obtain ⟨grown, goes⟩ := same isEnd ch found behind b c' rest
    refine ⟨grown, fun early d abreast => ahead_found ?_ (goes early d abreast)⟩
    have index := abreast.index
    rw [o.chars (by omega) (by omega) (show e.index + k + _ = _ by omega), found]

theorem current_bind
    (same : c.index ≠ o.stop → ∀ ch, o.left[c.index]? = some ch → o.Repeats alike (f ch) (g ch) c)
    (atEnd : c.index = o.stop → ∀ ch, o.left[c.index]? = some ch →
      o.Repeats alike (f ch) (g o.blank) c) :
    o.Repeats alike (current o.left >>= f) (current o.right >>= g) c :=
  ahead_bind (by omega) same atEnd

/-- The character at the cursor is the same on both sides in front of the end of the stretch. -/
theorem current_early (early : c.index < o.stop)
    (same : ∀ ch, o.left[c.index]? = some ch → o.Repeats alike (f ch) (g ch) c) :
    o.Repeats alike (current o.left >>= f) (current o.right >>= g) c :=
  current_bind (fun _ => same) fun atEnd => absurd atEnd (Nat.ne_of_lt early)

/-- A scanner that goes on over characters of a class takes none of them from behind the stretch. -/
theorem current_ite {p : CodePoint → Prop} [DecidablePred p] {yes no : CodePoint → ScanM α}
    {yes' no' : CodePoint → ScanM β} (foreign : ∀ ch ∈ whiteSpace, ¬p ch)
    (goes : ∀ ch, o.left[c.index]? = some ch → p ch → o.Repeats alike (yes ch) (yes' ch) c)
    (moves : o.leftBase ≤ c.index → c.index = o.stop → ∀ ch, o.left[c.index]? = some ch → p ch →
      Meets (yes ch) c (fun _ d => o.stop < d.index) anyFault)
    (rests : ∀ ch ch', ¬p ch → ¬p ch' → o.Repeats alike (no ch) (no' ch') c) :
    o.Repeats alike (current o.left >>= fun ch => if p ch then yes ch else no ch)
      (current o.right >>= fun ch => if p ch then yes' ch else no' ch) c := by
  refine current_bind (fun _ ch found => ?_) fun isEnd ch found => ?_
  · exact .ite (fun holds => goes ch found holds) fun fails => rests ch ch fails fails
  · have other : ¬p o.blank := foreign o.blank o.isBlank
    rw [if_neg other]
    by_cases holds : p ch
    · rw [if_pos holds]
      exact fun behind => past (Nat.le_of_eq isEnd) (moves behind isEnd ch found holds) behind
    · rw [if_neg holds]
      exact rests ch o.blank holds other

theorem past_skip {rest : Unit → ScanM α} {k : Nat} (early : c.index ≤ o.stop) (far : o.stop < c.index + k)
    (repeats : o.Repeats alike (rest ()) n' { c with index := c.index + k }) :
    o.Repeats alike (skip k >>= rest) n c := by
  intro behind
  refine past early (.modify_bind ?_) behind
  exact (repeats.grows (Nat.le_add_right_of_le behind)).imp fun _ _ => Nat.lt_of_lt_of_le far

theorem taking_ite {p : CodePoint → Prop} [DecidablePred p] {yes : CodePoint → Unit → ScanM α}
    {yes' : CodePoint → Unit → ScanM β} {no : CodePoint → ScanM α} {no' : CodePoint → ScanM β}
    (foreign : ∀ ch ∈ whiteSpace, ¬p ch)
    (goes : ∀ ch, o.left[c.index]? = some ch → p ch →
      o.Repeats alike (yes ch ()) (yes' ch ()) { c with index := c.index + 1 })
    (rests : ∀ ch ch', ¬p ch → ¬p ch' → o.Repeats alike (no ch) (no' ch') c) :
    o.Repeats alike (current o.left >>= fun ch => if p ch then skip 1 >>= yes ch else no ch)
      (current o.right >>= fun ch => if p ch then skip 1 >>= yes' ch else no' ch) c := by
  refine current_ite foreign (fun ch found holds => skip_bind (goes ch found holds))
    (fun behind isEnd ch found holds => .modify_bind ?_) rests
  exact ((goes ch found holds).grows (Nat.le_succ_of_le behind)).imp fun _ _ grown =>
    isEnd ▸ Nat.lt_of_succ_le grown

theorem next_bind (reads : ∀ ch, o.left[c.index]? = some ch →
      o.Repeats alike (f ch) (g ch) { c with index := c.index + 1 }) :
    o.Repeats alike (next o.left >>= f) (next o.right >>= g) c := by
  have taken : o.Repeats Eq (next o.left) (next o.right) c := by
    refine current_bind (fun _ ch _ => skip_bind (.pure rfl)) fun isEnd ch _ => ?_
    exact past (Nat.le_of_eq isEnd) (.modify_bind (isEnd ▸ Nat.lt_succ_self _))
  refine taken.bind fun ch d run => ?_
  obtain ⟨rfl, found⟩ := next_returns.of_ok run
  exact reads ch found

theorem atEnd_ite {yes no : ScanM α} {yes' no' : ScanM β}
    (ended : Meets yes c (fun _ d => c.index ≤ d.index) anyFault) (inside : o.Repeats alike no no' c) :
    o.Repeats alike (do if ← atEnd o.left then yes else no) (do if ← atEnd o.right then yes' else no') c := by
  have room := o.inside
  intro behind b d run
  have run : (if decide (o.left.size ≤ c.index) then yes else no) c = .ok b d := run
  by_cases past : o.left.size ≤ c.index
  · rw [if_pos (decide_eq_true past)] at run
    have grown : c.index ≤ d.index := by
      have met := ended.of_ok run
      exact met
    exact ⟨grown, fun early => by omega⟩
  · rw [if_neg (by simpa using past)] at run
    obtain ⟨grown, goes⟩ := inside behind b d run
    refine ⟨grown, fun early e abreast => .get_bind ?_⟩
    have index := abreast.index
    have found : ∃ ch, o.right[e.index]? = some ch := by
      by_cases isEnd : c.index = o.stop
      · exact ⟨_, o.here (isEnd ▸ behind) (isEnd ▸ index)⟩
      · exact ⟨_, (o.chars behind (by omega) index).trans (Array.getElem?_eq_getElem (by omega))⟩
    obtain ⟨ch, found⟩ := found
    have within := (Array.getElem?_eq_some_iff.mp found).1
    rw [if_neg (by simpa using within)]
    exact goes early e abreast

end Repeats

/-! ### Layout -/

theorem completeBreak_repeats (terminator : CodePoint) :
    o.Repeats Eq (completeBreak o.left terminator) (completeBreak o.right terminator) c := by
  refine .ite (fun _ => ?_) fun _ => .pure rfl
  refine .current_ite (by decide) (fun _ _ _ => ?_) (fun _ isEnd _ _ _ => ?_) fun _ _ _ _ => .pure rfl
  · exact .of_move rfl (fun _ => rfl) (Nat.le_succ _) rfl fun _ abreast => abreast.skip 1
  · exact isEnd ▸ Nat.lt_succ_self _

theorem skipLine_repeats : o.Repeats Eq (Layout.skipLine o.left) (Layout.skipLine o.right) c := by
  refine .iterate (fun _ c => .atEnd_ite (Nat.le_refl _) (.next_bind fun ch _ => ?_)) _ _ () c
  refine .ite (fun _ => (completeBreak_repeats ch).bind fun _ d _ => ?_) fun _ => .pure rfl
  exact .of_move rfl (fun _ => rfl) (Nat.le_refl _) rfl fun _ abreast =>
    abreast.move 0 ⟨rfl, rfl⟩ ⟨rfl, rfl⟩ fun _ => rfl

theorem skipBlock_repeats : o.Repeats Eq (Layout.skipBlock o.left) (Layout.skipBlock o.right) c := by
  -- The rest of a line break, whose carriage return has been passed over if there was one.
  let breaks : ScanM (Unit ⊕ Unit) :=
    do countLine; skip 1; noteLineBreak true; startLine; pure (.inl ())
  have ends (c : Cursor) : o.Repeats Eq breaks breaks c :=
    .of_move rfl (fun _ => rfl) (Nat.le_succ _) rfl fun _ abreast =>
      abreast.move 1 ⟨rfl, rfl⟩ ⟨rfl, rfl⟩ fun _ => rfl
  have on (k : Nat) (answer : Unit ⊕ Unit) (c : Cursor) :
      o.Repeats Eq (do skip k; pure answer) (do skip k; pure answer) c :=
    .skip_bind (.pure rfl)
  refine .iterate (fun _ c => ?_) _ _ () c
  refine .atEnd_ite trivial ?_
  by_cases isEnd : c.index = o.stop
  · -- Every round takes a character.
    have one : o.stop < c.index + 1 := by omega
    have two : o.stop < c.index + 2 := by omega
    refine .past (Nat.le_of_eq isEnd) ((ahead_returns 0).bind fun ch d seen => ?_)
    obtain ⟨rfl, -⟩ := seen
    refine .ite (fun _ => .ite (fun _ => ?_) fun _ => one) fun _ => .ite (fun _ => ?_) fun _ => one
    · refine (ahead_returns 1).bind fun ch' e seen => ?_
      obtain ⟨rfl, -⟩ := seen
      exact .ite (fun _ => two) fun _ => one
    · refine (ahead_returns 1).bind fun ch' e seen => ?_
      obtain ⟨rfl, -⟩ := seen
      exact .ite (fun _ => two) fun _ => one
  have near : c.index + 1 ≤ o.stop ∨ o.stop < c.index := by omega
  have noFeed : o.blank ≠ 0x0A := o.apart _ (by decide)
  have noSlash : o.blank ≠ 0x2F := o.apart _ (by decide)
  refine .current_bind (fun _ ch _ => .ite (fun _ => ?_) fun _ => ?_) fun atEnd => absurd atEnd isEnd
  · refine .ite (fun _ => .ahead_bind near (fun _ ch' _ => ?_) fun nextIs ch' _ => ?_) fun _ => ends c
    · exact .ite (fun _ => .skip_bind (ends _)) fun _ => ends c
    · rw [if_neg noFeed]
      split
      · exact .past (by omega) (show o.stop < c.index + 1 + 1 by omega)
      · exact ends c
  · refine .ite (fun _ => .ahead_bind near (fun _ ch' _ => ?_) fun nextIs ch' _ => ?_) fun _ => on 1 _ c
    · exact .ite (fun _ => on 2 _ c) fun _ => on 1 _ c
    · rw [if_neg noSlash]
      split
      · exact .past (by omega) (show o.stop < c.index + 2 by omega)
      · exact on 1 _ c

theorem piece_repeats (fresh : Bool) (early : c.index < o.stop) :
    o.Repeats Eq (Layout.piece o.left fresh) (Layout.piece o.right fresh) c := by
  have line (answer : Bool) (c : Cursor) :
      o.Repeats Eq (do Layout.skipLine o.left; pure (Sum.inl answer : Bool ⊕ Unit))
        (do Layout.skipLine o.right; pure (.inl answer)) c :=
    skipLine_repeats.bind fun _ _ _ => .pure rfl
  have block (c : Cursor) : o.Repeats Eq (do Layout.skipBlock o.left; pure (Sum.inl fresh : Bool ⊕ Unit))
        (do Layout.skipBlock o.right; pure (.inl fresh)) c :=
    skipBlock_repeats.bind fun _ _ _ => .pure rfl
  refine .atEnd_ite (Nat.le_refl _) (.current_early early fun ch _ => ?_)
  refine .ite (fun _ => .skip_bind (.pure rfl)) fun _ => .ite (fun _ => ?_) fun _ => ?_
  · refine .modify_bind (Nat.le_refl _) (fun _ abreast => abreast.move 0 ⟨rfl, rfl⟩ ⟨rfl, rfl⟩ fun _ => rfl)
      (.skip_bind ((completeBreak_repeats ch).bind fun _ _ _ => ?_))
    exact .of_move rfl (fun _ => rfl) (Nat.le_refl _) rfl fun _ abreast =>
      abreast.move 0 ⟨rfl, rfl⟩ ⟨rfl, rfl⟩ abreast.lineBreak
  have noSlash : o.blank ≠ 0x2F := o.apart _ (by decide)
  have noStar : o.blank ≠ 0x2A := o.apart _ (by decide)
  have noMinus : o.blank ≠ 0x2D := o.apart _ (by decide)
  have noGreater : o.blank ≠ 0x3E := o.apart _ (by decide)
  refine .ite (fun _ => .ahead_bind (.inl early) (fun _ ch' _ => ?_) fun nextIs ch' _ => ?_) fun _ => ?_
  · exact .ite (fun _ => .skip_bind (line true _)) fun _ => .ite (fun _ => .skip_bind (block _)) fun _ => .pure rfl
  · rw [if_neg noSlash, if_neg noStar]
    split
    · exact .past_skip (by omega) (by omega) (line true _)
    · split
      · exact .past_skip (by omega) (by omega) (block _)
      · exact .pure rfl
  refine .ite (fun _ => ?_) fun _ => .ite (fun _ => ?_) fun _ => .pure rfl
  · refine .ahead_bind (.inl early) (fun apart ch' _ => ?_) fun nextIs ch' _ => ?_
    · refine .ite (fun _ => ?_) fun _ => .pure rfl
      refine .ahead_bind (.inl (by omega)) (fun _ ch'' _ => ?_) fun nextIs ch'' _ => ?_
      · exact .ite (fun _ => .skip_bind (line fresh _)) fun _ => .pure rfl
      · rw [if_neg noGreater]
        split
        · exact .past_skip (by omega) (by omega) (line fresh _)
        · exact .pure rfl
    · -- The blank separates the two dashes.
      rw [if_neg noMinus]
      split
      · intro behind answer d run
        obtain ⟨ch'', e, looked, rest⟩ := bind_ok_iff.mp run
        obtain ⟨rfl, -⟩ := (ahead_returns 2).of_ok looked
        refine (?_ : o.Repeats Eq _ (pure (.inr ())) e) behind answer d rest
        split
        · exact .past_skip (by omega) (by omega) (line fresh _)
        · exact .pure rfl
      · exact .pure rfl
  · refine .get_bind fun behind d index => ?_
    dsimp only
    have text (far : c.index + 4 ≤ o.stop) : o.right.slice (d.index + 1) (d.index + 4) =
        o.left.slice (c.index + 1) (c.index + 4) :=
      o.slice_eq (by omega) (by omega) (fun k => by omega) far
    by_cases far : c.index + 4 ≤ o.stop
    · rw [text far]
      exact .ite (fun _ => .skip_bind (line fresh _)) fun _ => .pure rfl
    · have closed : o.right.slice (d.index + 1) (d.index + 4) ≠ Text.ofString "!--" := by
        intro opens
        have blank : (o.right.slice (d.index + 1) (d.index + 4))[o.stop - (c.index + 1)]? = some o.blank := by
          rw [slice_getElem? (by omega), o.here (by omega) (by omega)]
        rw [opens] at blank
        have solid : ∀ ch ∈ whiteSpace, ch ∉ Text.ofString "!--" := by decide
        exact solid o.blank o.isBlank (List.mem_of_getElem? blank)
      rw [if_neg closed]
      split
      · exact .past_skip (by omega) (by omega) (line fresh _)
      · exact .pure rfl

theorem pieces_reach {src : Source} (rounds : Nat) (fresh : Bool) (bound : c.index ≤ src.size) :
    Meets (iterate .exhausted (Layout.piece src) rounds fresh) c (fun _ d => c.Reaches src d)
      anyFault := by
  refine Meets.iterate_returns (fun _ d => c.Reaches src d) (fun fresh d reach => ?_) rounds fresh c
    (.refl bound)
  refine (Layout.piece_reaches fresh reach.bound).mono (fun answer e met => ?_) fun _ _ _ => trivial
  cases answer with
  | inl next => exact reach.trans met.1
  | inr _ => exact met.1 ▸ reach

/-- Layout that starts in the stretch ends in it on both sides alike. Where on the left it ends with
the stretch, the right side has come to the blank, and what it does from there on is known. -/
theorem pieces_repeat {known : Unit → Cursor → Prop} {c' : Cursor} (rounds rounds' : Nat) (fresh : Bool)
    (abreast : o.Abreast c d)
    (run : iterate .exhausted (Layout.piece o.left) rounds fresh c = .ok () c')
    (early : c.index ≤ o.stop ∧ c'.index ≤ o.stop)
    (inFront : c'.index < o.stop → ∀ d', o.Abreast c' d' → known () d')
    (atEnd : ∀ rounds rounds' fresh c d, c.index = o.stop → o.Abreast c d →
      iterate .exhausted (Layout.piece o.left) rounds fresh c = .ok () c' →
      Meets (iterate .exhausted (Layout.piece o.right) rounds' fresh) d known (only .exhausted)) :
    Meets (iterate .exhausted (Layout.piece o.right) rounds' fresh) d known (only .exhausted) := by
  have room := o.inside
  induction rounds generalizing rounds' fresh c d with
  | zero => cases run
  | succ rounds ih =>
    by_cases isEnd : c.index = o.stop
    · exact atEnd (rounds + 1) rounds' fresh c d isEnd abreast run
    cases rounds' with
    | zero => exact rfl
    | succ rounds' =>
      obtain ⟨answer, e, begun, rest⟩ := bind_ok_iff.mp run
      obtain ⟨-, goes⟩ := piece_repeats fresh (by omega) abreast.behind answer e begun
      have reaches := (Layout.piece_reaches fresh (by omega)).of_ok begun
      cases answer with
      | inr _ =>
        obtain ⟨rfl, -⟩ := reaches
        cases rest
        refine (goes early.1 d abreast).bind ?_
        rintro _ d' ⟨rfl, abreast'⟩
        exact inFront (by omega) d' abreast'
      | inl next =>
        obtain ⟨reach, -⟩ := reaches
        have grown : e.index ≤ c'.index := by
          have met := (pieces_reach rounds next reach.bound).of_ok rest
          exact met.index
        refine (goes (Nat.le_trans grown early.2) d abreast).bind ?_
        rintro _ d' ⟨rfl, abreast'⟩
        exact ih rounds' next abreast' rest ⟨by omega, early.2⟩

end Overlay

end EcmaScript
