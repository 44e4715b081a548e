import EcmaScript.Proofs.Mirroring
import EcmaScript.Proofs.OverlaidTokens

/-!
Layout and tokens read through a window. Where a token can be read on the left, the same token is
read on the right, at the corresponding place and with the same text: a program lies over the other
source together with the sentinel behind it, up to the blank that follows the semicolon.
-/

namespace EcmaScript

open Source

/-- The words that are keywords in strict code only. -/
def Keyword.onlyStrict : List Keyword :=
  [implements, interface, package, private_, protected_, public_, static]

theorem ofStrictText?_eq_some {name : Text} {word : Keyword}
    (found : Keyword.ofStrictText? name = some word) :
    word ∈ Keyword.strictReserved ∧ word.text = name := by
  obtain ⟨_, _, same, -⟩ := List.lookup_eq_some_iff.mp found
  have member : (name, word) ∈ Keyword.strictTable := by simp [same]
  obtain ⟨word, listed, same⟩ := List.mem_map.mp member
  cases same
  exact ⟨listed, rfl⟩

namespace Lexeme

/-- Strict code may take a name for a keyword. -/
def Tightens (t u : Lexeme) : Prop :=
  t = u ∨ ∃ word ∈ Keyword.onlyStrict, t = .keyword word ∧ u = .identifier word.text

/-- What strict code makes of a name. -/
theorem inStrictCode_tightens (name : Text) : (ofName name).inStrictCode.Tightens (ofName name) := by
  cases word : Keyword.ofText? name with
  | some word =>
    left
    simp only [ofName, word, inStrictCode]
  | none =>
    simp only [ofName, word]
    split
    · exact .inl rfl
    split
    · exact .inl rfl
    split
    · exact .inl rfl
    simp only [inStrictCode]
    split
    next reserved found =>
      obtain ⟨member, rfl⟩ := ofStrictText?_eq_some found
      have only : ∀ word ∈ Keyword.strictReserved, Keyword.ofText? word.text = none →
          word ∈ Keyword.onlyStrict := by decide
      exact .inr ⟨reserved, only reserved member word, rfl, rfl⟩
    next => exact .inl rfl

theorem unreserved_of_inStrictCode {lexeme : Lexeme} {name : Text}
    (isName : lexeme.inStrictCode = .identifier name) : name.isStrictReserved = false := by
  cases lexeme with
  | identifier name' =>
    simp only [inStrictCode] at isName
    split at isName
    next => cases isName
    next none =>
      cases isName
      simp only [Text.isStrictReserved, none, Option.isSome_none]
  | _ => cases isName

/-- How what is read in one kind of code stands to what is read in another. -/
theorem Likened.facts {strict strict' : Bool} {t u : Lexeme} (likened : Likened strict strict' t u) :
    (t.Tightens u ∨ u.Tightens t) ∧ ((strict' = true → strict = true) → t.Tightens u) ∧
    (strict = strict' → t = u) ∧
    (strict = true → ∀ name, t = .identifier name → name.isStrictReserved = false) := by
  cases likened with
  | fixed other =>
    exact ⟨.inl (.inl rfl), fun _ => .inl rfl, fun _ => rfl, fun _ name isName => absurd isName (other name)⟩
  | name name =>
    have strictly := inStrictCode_tightens name
    cases strict with
    | true =>
      cases strict' with
      | true => exact ⟨.inl (.inl rfl), fun _ => .inl rfl, fun _ => rfl, fun _ _ => unreserved_of_inStrictCode⟩
      | false => exact ⟨.inl strictly, fun _ => strictly, nofun, fun _ _ => unreserved_of_inStrictCode⟩
    | false =>
      cases strict' with
      | true => exact ⟨.inr strictly, fun stricter => absurd (stricter rfl) nofun, nofun, nofun⟩
      | false => exact ⟨.inl (.inl rfl), fun _ => .inl rfl, fun _ => rfl, nofun⟩

end Lexeme

theorem Cursor.Took.regExp_early {src : Source} {length : Nat} {c d : Cursor} {pattern flags rest : Text}
    (took : c.Took src (RegExp.delimited pattern ++ flags) rest d) (ends : Sealed src length)
    (spelled : RegExp.Spelled pattern flags rest) (early : c.index ≤ length) : d.index ≤ length := by
  have found : src.ahead c.index = RegExp.delimited pattern ++ (flags ++ rest) := by
    simpa using took.found
  have first : c.Took src (RegExp.delimited pattern) (flags ++ rest)
      { c with index := c.index + (RegExp.delimited pattern).length } := ⟨rfl, found⟩
  have size : (RegExp.delimited pattern).length = pattern.length + 2 := by simp [RegExp.delimited]
  have closing : src[c.index + (pattern.length + 1)]? = some 0x2F :=
    Source.getElem?_append found (by simp [RegExp.delimited])
  have inLine : c.index + (pattern.length + 1) ≤ length + 1 := by
    refine Nat.le_of_not_lt fun past => ?_
    obtain ⟨j, ⟨-, inLine⟩, moved⟩ := first.along (RegExp.delimited_inLine spelled.pattern)
    obtain rfl : c.index + (RegExp.delimited pattern).length = j := congrArg (·.index) moved
    obtain ⟨ch, feed, inLine⟩ := inLine (length + 1) (by omega) (by omega)
    obtain rfl : ch = 0x0A := Option.some.inj (feed.symm.trans ends.lineFeed)
    cases inLine
  have inCode := ends.slash_inCode closing (by omega)
  have second : Cursor.Took src { c with index := c.index + (RegExp.delimited pattern).length } flags rest d := by
    refine ⟨?_, first.ahead⟩
    rw [took.cursor, List.length_append, Nat.add_assoc]
  refine second.early ends (fun blank => ?_) (by dsimp only; omega)
  exact absurd (spelled.named _ blank) (by decide)

/-- A sealed source on the left is laid over one on the right: from one index on, each of its
characters stands on the right as well, at the same distance from another index. The braces on the
right are those on the left inside some others. -/
structure Window where
  left : Source
  right : Source
  leftBase : Nat
  rightBase : Nat
  length : Nat
  outer : List Brace
  ends : Sealed left length
  chars : ∀ {i j : Nat} {ch : CodePoint}, leftBase ≤ i → i + rightBase = j + leftBase →
    left[i]? = some ch → right[j]? = some ch

namespace Window

open Scan Character

variable {w : Window} {c d : Cursor} {ch : CodePoint} {same : Prop}

/-- The cursor on the left lies over the one on the right. -/
structure Aligned (w : Window) (c d : Cursor) : Prop where
  behind : w.leftBase ≤ c.index
  index : c.index + w.rightBase = d.index + w.leftBase
  braces : ∃ inner, c.braces = some inner ∧ d.braces = some (w.outer ++ inner)

/-- Aligned cursors that, where it matters, have seen the same line breaks. -/
structure Abreast (w : Window) (same : Prop) (c d : Cursor) : Prop extends w.Aligned c d where
  lineBreak : same → c.lineBreak = d.lineBreak

theorem slice_eq (w : Window) {i m j n : Nat} (behind : w.leftBase ≤ i)
    (starts : i + w.rightBase = j + w.leftBase) (stops : m + w.rightBase = n + w.leftBase)
    (bound : m ≤ w.left.size) : w.left.slice i m = w.right.slice j n := by
  refine (slice_congr (fun k => by omega) fun k within => ?_).symm
  have here : w.left[i + k]? = some w.left[i + k] := Array.getElem?_eq_getElem (by omega)
  rw [here, w.chars (by omega) (by omega) here]

/-- The program with its sentinel, up to the blank behind the semicolon. -/
def overlay (w : Window) (same : Prop) : Overlay where
  left := w.left
  right := w.right
  leftBase := w.leftBase
  rightBase := w.rightBase
  stop := w.length + 4
  length := w.length
  outer := w.outer
  same
  blank := 0x20
  isBlank := by decide
  ends := w.ends
  inside := by
    rw [w.ends.size_eq]
    omega
  chars {i j} behind early index := by
    have here := Array.getElem?_eq_getElem (show i < w.left.size by rw [w.ends.size_eq]; omega)
    rw [here]
    exact w.chars behind index here
  here behind index := w.chars behind index (w.ends.tail 4 (by decide))

theorem Abreast.overlay (abreast : w.Abreast same c d) : (w.overlay same).Abreast c d :=
  ⟨abreast.behind, abreast.index, abreast.braces, abreast.lineBreak⟩

theorem Abreast.of_overlay (abreast : (w.overlay same).Abreast c d) : w.Abreast same c d :=
  ⟨⟨abreast.behind, abreast.index, abreast.braces⟩, abreast.lineBreak⟩

theorem pieces_follow (rounds rounds' : Nat) (fresh : Bool) (abreast : w.Abreast same c d)
    (early : c.index ≤ w.length + 3) :
    Mirrors .exhausted (iterate .exhausted (Layout.piece w.left) rounds fresh)
      (iterate .exhausted (Layout.piece w.right) rounds' fresh) c d
      fun _ c' _ d' => w.Abreast same c' d' ∧ c'.index ≤ w.length + 3 := by
  intro _ c' run
  have stops {rounds fresh} {c : Cursor} (early : c.index ≤ w.length + 3)
      (run : iterate .exhausted (Layout.piece w.left) rounds fresh c = .ok () c') :
      c'.index ≤ w.length + 3 := by
    have met := (Meets.iterate_returns (fun _ d => d.index ≤ w.length + 3)
      (fun fresh d early => Layout.piece_stops w.ends fresh early) rounds fresh c early).of_ok run
    exact met
  have late := stops early run
  refine Overlay.pieces_repeat (o := w.overlay same) rounds rounds' fresh abreast.overlay run
    ⟨Nat.le_succ_of_le early, Nat.le_succ_of_le late⟩ (fun _ d' abreast' => ⟨.of_overlay abreast', late⟩) ?_
  intro rounds rounds' fresh c d atEnd _ run
  have room := w.ends.size_eq
  have atEnd : c.index = w.length + 4 := atEnd
  have grown := (Overlay.pieces_reach rounds fresh (show c.index ≤ w.left.size by omega)).of_ok run
  have grown := grown.index
  omega

/-- A token that lies in the program, or the semicolon behind it. -/
def Within (w : Window) (lexeme : Lexeme) (stop : Nat) : Prop :=
  stop ≤ w.length ∨ lexeme = .punctuator .semicolon ∧ stop = w.length + 4

/-- Marks hold neither blanks nor line feeds. -/
theorem text_visible (mark : Punctuator) : 0x20 ∉ mark.text ∧ 0x0A ∉ mark.text := by
  cases mark <;> decide

theorem eq_semicolon {mark : Punctuator} (first : mark.text.head? = some 0x3B) : mark = .semicolon := by
  cases mark <;> first | rfl | exact absurd first (by decide)

/-- A text without blanks and line feeds ends in the program, or it starts with the semicolon. -/
theorem text_within (w : Window) {text rest : Text} {i : Nat} (early : i ≤ w.length + 3)
    (found : w.left.ahead i = text ++ rest) (nonempty : text ≠ [])
    (visible : 0x20 ∉ text ∧ 0x0A ∉ text) :
    i + text.length ≤ w.length ∨ text.head? = some 0x3B ∧ i = w.length + 3 := by
  have inside := List.length_pos_iff.mpr nonempty
  have spelled {j : Nat} {ch : CodePoint} (here : w.left[j]? = some ch) (first : i ≤ j)
      (last : j < i + text.length) : ch ∈ text := by
    have at_j := List.getElem?_eq_getElem (show j - i < text.length by omega)
    have there := Source.getElem?_append found at_j
    rw [Nat.add_sub_cancel' first, here] at there
    rw [Option.some.inj there]
    exact List.getElem_mem _
  rcases Nat.lt_or_ge w.length i with behind | before
  · have last : i = w.length + 1 ∨ i = w.length + 2 ∨ i = w.length + 3 := by omega
    rcases last with rfl | rfl | rfl
    · exact absurd (spelled w.ends.lineFeed (Nat.le_refl _) (by omega)) visible.2
    · exact absurd (spelled (w.ends.tail 2 (by decide)) (Nat.le_refl _) (by omega)) visible.1
    · have first := Source.getElem?_append (k := 0) found (List.getElem?_eq_getElem inside)
      exact .inr ⟨by rw [List.head?_eq_getElem?, List.getElem?_eq_getElem inside, ← first]; exact w.ends.semicolon, rfl⟩
  · refine .inl (Nat.le_of_not_lt fun beyond => ?_)
    exact absurd (spelled w.ends.blank before beyond) visible.1

/-- A token lies in the program, or it is the semicolon behind it. -/
theorem token_within (w : Window) {strict : Bool} {lineStart : Option Nat} (early : c.index ≤ w.length + 3) :
    Meets (Lexer.token w.left strict lineStart) c (fun token d => w.Within token.lexeme d.index)
      anyFault := by
  have size := w.ends.size_eq
  have took {text rest : Text} {d : Cursor} {lexeme : Lexeme} (took : c.Took w.left text rest d)
      (nonempty : text ≠ []) {member : CodePoint → Bool} (belongs : ∀ ch ∈ text, member ch = true)
      (outside : member 0x20 = false ∧ member 0x0A = false ∧ member 0x3B = false) :
      w.Within lexeme d.index := by
    have absent {ch : CodePoint} (other : member ch = false) : ch ∉ text := fun among => by
      rw [belongs ch among] at other
      cases other
    rcases w.text_within early took.found nonempty ⟨absent outside.1, absent outside.2.1⟩ with inCode | ⟨first, -⟩
    · exact .inl (took.index_eq ▸ inCode)
    · exact absurd (List.mem_of_mem_head? first) (absent outside.2.2)
  refine Lexer.token_cases (fun past => absurd past (by omega))
    (fun parts rest d spells took' => took took' (Name.text_ne_nil spells) (Name.named_of_spells spells)
      (by decide)) ?_ ((StringLiteral.token_returns lineStart).imp ?_)
    (fun n rest d valid took' => took took' (Numeral.spelling_ne_nil valid) (Numeral.isNumeric_spelling valid)
      (by decide)) fun _ _ _ => ?_
  · have marks : Meets (Mark.punctuator w.left) c (fun mark d => w.Within (.punctuator mark) d.index)
        anyFault := by
      refine (ahead_returns 0).bind fun _ e here => .get_bind ?_
      obtain ⟨rfl, -⟩ := here
      show Meets (Overlay.takeMark (Punctuator.longest? (w.left.slice e.index (e.index + 4)))) e _ _
      cases found : Punctuator.longest? (w.left.slice e.index (e.index + 4)) with
      | none => trivial
      | some mark =>
        refine (Overlay.takeMark_moves mark).imp ?_
        rintro _ d ⟨rfl, index⟩
        have starts := Mark.longest?_isPrefix found
        rw [slice_ahead] at starts
        obtain ⟨rest, ahead⟩ := starts.trans (List.take_prefix _ _)
        rcases w.text_within early ahead.symm (Mark.text_ne_nil _) (text_visible _) with inCode | ⟨first, isLast⟩
        · exact .inl (index ▸ inCode)
        · obtain rfl := eq_semicolon first
          exact .inr ⟨rfl, index.trans (congrArg (· + 1) isLast)⟩
    exact .get_bind (marks.bind fun _ _ within => within)
  · rintro _ _ ⟨quote, elements, rest, isQuote, -, here, rfl, rfl⟩
    have foreign : quote ∉ Parser.sentinel := by rcases isQuote with rfl | rfl <;> decide
    have inCode := w.ends.inCode (getElem?_head (ahead_append (ahead_cons here))) foreign
    obtain ⟨stop, -, -⟩ := StringElement.close_eq c elements
    exact .inl (by omega)
  · -- The last mark of a template belongs to no sentinel.
    have body (c : Cursor) : Meets (Template.body w.left) c (fun _ d => d.index ≤ w.length) anyFault := by
      refine Meets.iterate_returns (fun _ _ => True) (fun cooked d _ => ?_) _ _ _ trivial
      refine Scan.atEnd_ite (fun _ => trivial) fun _ => next_returns.bind fun ch e taken => ?_
      obtain ⟨rfl, found⟩ := taken
      refine .ite (fun isQuote => ?_) fun _ => .ite (fun _ => ?_) fun _ =>
        .ite (fun _ => .past fun _ _ => trivial) fun _ =>
        .ite (fun _ => .past fun _ _ => trivial) fun _ => trivial
      · subst isQuote
        exact w.ends.inCode found (by decide)
      · refine (ahead_returns 0).bind fun ch' e looked => .ite (fun isBrace => ?_) fun _ => trivial
        obtain ⟨rfl, found'⟩ := looked
        subst isBrace
        have inCode := w.ends.inCode found' (by decide)
        refine .into (.get_bind ?_)
        split
        · exact inCode
        · trivial
    refine .get_bind (.past fun _ d => .modify_bind ((body _).bind fun _ e inCode => ?_))
    refine .ite (fun _ => .inl inCode) fun _ => .into (.get_bind ?_)
    split
    · trivial
    · exact .inl inCode
    · trivial

/-- What reading a token leaves on both sides, in code that is strict or not. -/
structure Read (w : Window) (strict strict' : Bool) (t : Token) (c : Cursor) (u : Token)
    (d : Cursor) : Prop extends w.Aligned c d where
  similar : t.lexeme.Tightens u.lexeme ∨ u.lexeme.Tightens t.lexeme
  tighter : (strict' = true → strict = true) → t.lexeme.Tightens u.lexeme
  same : strict = strict' → t.lexeme = u.lexeme
  raw : t.raw = u.raw
  start : t.start + w.rightBase = u.start + w.leftBase
  stop : t.stop + w.rightBase = u.stop + w.leftBase
  notEnd : t.lexeme ≠ .endOfSource
  within : w.Within t.lexeme c.index
  unreserved : strict = true → ∀ name, t.lexeme = .identifier name → name.isStrictReserved = false


theorem token_follows (strict strict' : Bool) (lineStart lineStart' : Option Nat)
    (aligned : w.Aligned c d) (early : c.index ≤ w.length + 3) :
    Mirrors .exhausted (Lexer.token w.left strict lineStart) (Lexer.token w.right strict' lineStart') c d
      (w.Read strict strict') := by
  intro t c' run
  have size := w.ends.size_eq
  obtain ⟨inner, opened, -⟩ := aligned.braces
  have scanned := (Lexer.token_meets strict lineStart (by omega) opened).of_ok run
  have within : w.Within t.lexeme c'.index := by
    have met := (w.token_within early).of_ok run
    exact met
  have stops : c'.index ≤ w.length + 4 := by
    rcases within with inCode | ⟨-, isLast⟩ <;> omega
  obtain ⟨-, goes⟩ := Overlay.token_repeats (o := w.overlay False) strict strict' lineStart lineStart'
    (Nat.lt_succ_of_le early) aligned.behind t c' run
  refine (goes stops d ⟨aligned.behind, aligned.index, aligned.braces, False.elim⟩).imp ?_
  rintro u d' ⟨copies, abreast⟩
  obtain ⟨similar, tighter, same, unreserved⟩ := copies.lexeme.facts
  exact
    { behind := abreast.behind
      index := abreast.index
      braces := abreast.braces
      similar
      tighter
      same
      raw := copies.raw
      start := copies.start
      stop := copies.stop
      notEnd := fun isEnd => by have ended := (scanned.ended isEnd).1; omega
      within
      unreserved }

theorem regExp_follows (aligned : w.Aligned c d) (here : w.left[c.index]? = some 0x2F)
    (early : c.index ≤ w.length) :
    Mirrors .exhausted (RegExp.scan w.left) (RegExp.scan w.right) c d fun r c' r' d' =>
      r.pattern = r'.pattern ∧ r.flags = r'.flags ∧ r.raw = r'.raw ∧ w.Aligned c' d' ∧
        c'.index ≤ w.length := by
  intro r c' run
  obtain ⟨pattern, flags, rest, spelled, -, took, -⟩ :=
    (RegExp.scan_meets (ahead_of_found here)).of_ok run
  have early' := took.regExp_early w.ends spelled early
  obtain ⟨-, goes⟩ := Overlay.regExp_repeats (o := w.overlay False) here aligned.behind r c' run
  refine (goes (Nat.le_add_right_of_le early') d
    ⟨aligned.behind, aligned.index, aligned.braces, False.elim⟩).imp ?_
  rintro r' d' ⟨⟨pattern, flags, raw⟩, abreast⟩
  exact ⟨pattern, flags, raw, ⟨abreast.behind, abreast.index, abreast.braces⟩, early'⟩

end Window

end EcmaScript
