import EcmaScript.Proofs.MirroredTokens

/-!
A blank put into a source. Up to the place where it is put in, the two sources are the same, and
behind it they are the same again, one place apart. So one stretch of the source on the left lies over
the right one where it stands, and what comes behind it lies over the right one shifted by one place.
-/

namespace EcmaScript

open Scan Character

/-- A source on the left and, on the right, the same with a blank at a place in the program. -/
structure Insertion where
  left : Source
  right : Source
  pos : Nat
  length : Nat
  blank : CodePoint
  isBlank : blank ∈ whiteSpace
  before : ∀ {i}, i < pos → right[i]? = left[i]?
  here : right[pos]? = some blank
  after : ∀ {i}, pos ≤ i → right[i + 1]? = left[i]?
  inCode : pos < length
  ends : Sealed left length
  ends' : Sealed right (length + 1)

namespace Insertion

variable {s : Insertion} {c d : Cursor}

theorem pos_lt_size (s : Insertion) : s.pos < s.left.size ∧ s.pos < s.right.size := by
  have size := s.ends.size_eq
  have size' := s.ends'.size_eq
  have inCode := s.inCode
  omega

/-- In front of the place the source on the left is laid over the one on the right. -/
def front (s : Insertion) : Overlay where
  left := s.left
  right := s.right
  leftBase := 0
  rightBase := 0
  stop := s.pos
  length := s.length
  outer := []
  same := True
  blank := s.blank
  isBlank := s.isBlank
  ends := s.ends
  inside := s.pos_lt_size.1
  chars _ early index := by
    cases index
    exact s.before early
  here _ index := by
    cases index
    exact s.here

/-- Behind the place the source on the left is laid over the one on the right. -/
def window (s : Insertion) : Window where
  left := s.left
  right := s.right
  leftBase := s.pos
  rightBase := s.pos + 1
  length := s.length
  outer := []
  ends := s.ends
  chars {i j ch} behind index found := by
    obtain rfl : j = i + 1 := by omega
    exact (s.after behind).trans found

/-- At the place the blank is passed over on the right. -/
theorem blank_piece (s : Insertion) (fresh : Bool) (atPlace : c.index = s.pos) :
    Meets (Layout.piece s.right fresh) c
      (fun answer d => answer = .inl fresh ∧ d = { c with index := c.index + 1 })
      (only .exhausted) := by
  have found : s.right[c.index]? = some s.blank := atPlace ▸ s.here
  have inside := (Array.getElem?_eq_some_iff.mp found).1
  refine atEnd_ite (fun past => absurd inside (Nat.not_lt.mpr past)) fun _ => ahead_found found ?_
  rw [if_pos (by simpa [isWhiteSpace] using s.isBlank)]
  exact ⟨rfl, rfl⟩

/-- Layout that starts by the place ends in front of it on both sides alike, or else on the right it
goes on behind the blank. -/
theorem skipAll_front {between : Cursor} (abreast : s.front.Abreast c d) (early : c.index ≤ s.pos)
    (run : Layout.skipAll s.left c = .ok () between) (early' : between.index ≤ s.pos) :
    Meets (Layout.skipAll s.right) d (fun _ between' =>
      between.index < s.pos ∧ s.front.Abreast between between' ∨
      between.index = s.pos ∧ s.window.Abreast True between between') (only .exhausted) := by
  have noted : s.front.Abreast { c with lineBreak := some false } { d with lineBreak := some false } :=
    abreast.move 0 ⟨rfl, rfl⟩ ⟨rfl, rfl⟩ fun _ => rfl
  obtain index : c.index = d.index := abreast.index
  refine .modify_bind (.get_bind ?_)
  dsimp only
  rw [← index]
  refine Overlay.pieces_repeat (o := s.front) (s.left.size + 1) (s.right.size + 1) (decide (c.index = 0)) noted
    run ⟨early, early'⟩ (fun front _ abreast' => .inl ⟨front, abreast'⟩) ?_
  intro rounds rounds' fresh c d atPlace abreast run
  have atPlace : c.index = s.pos := atPlace
  have index : c.index = d.index := abreast.index
  cases rounds' with
  | zero => exact rfl
  | succ rounds' =>
    have inCode := s.inCode
    have opened : s.window.Abreast True c { d with index := d.index + 1 } := by
      refine ⟨⟨Nat.le_of_eq atPlace.symm, ?_, abreast.braces⟩, abreast.lineBreak⟩
      show c.index + (s.pos + 1) = d.index + 1 + s.pos
      omega
    have follows := s.window.pieces_follow rounds rounds' fresh opened
      (show c.index ≤ s.length + 3 by omega) () between run
    refine (s.blank_piece fresh (index ▸ atPlace)).bind ?_
    rintro _ _ ⟨rfl, rfl⟩
    refine follows.imp fun _ _ met => .inr ⟨Nat.le_antisymm early' ?_, met.1⟩
    exact met.1.behind

end Insertion

end EcmaScript
