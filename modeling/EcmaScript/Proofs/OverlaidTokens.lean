import EcmaScript.Proofs.Overlay
import EcmaScript.Proofs.Tracking

/-!
Tokens of a stretch that is laid over another source. A token that ends by the end of the stretch is
read on the right as it is on the left. Numbers look for a digit behind their octal digits, punctuators
try longer ones first, and a name goes back to its start where it finds a backslash; what they see
behind the stretch on the left would have been taken, so that the token would not end there.
-/

namespace EcmaScript

open List Source

/-- What strict code or other code makes of a name. -/
def Lexeme.coded (strict : Bool) (lexeme : Lexeme) : Lexeme :=
  if strict then lexeme.inStrictCode else lexeme

/-- What is read in code of one kind and in code of another. Only names may differ. -/
inductive Lexeme.Likened (strict strict' : Bool) : Lexeme → Lexeme → Prop
  | fixed {lexeme : Lexeme} (other : ∀ name, lexeme ≠ .identifier name) :
    Likened strict strict' lexeme lexeme
  | name (name : Text) :
    Likened strict strict' ((ofName name).coded strict) ((ofName name).coded strict')

theorem Lexer.named_lexeme (strict : Bool) (token : Token) :
    (named strict token).lexeme = token.lexeme.coded strict := by
  cases strict <;> rfl

theorem Cursor.Along.le {src : Source} {c d : Cursor} (along : c.Along src d) : c.index ≤ d.index := by
  obtain ⟨j, inLine, rfl⟩ := along
  exact inLine.1

namespace Overlay

open Scan Character

variable {α β : Type} {o : Overlay} {c d : Cursor} {ch : CodePoint}

/-! ### Escapes -/

theorem not_blank {member : CodePoint → Bool} (foreign : ∀ ch ∈ whiteSpace, member ch = false) :
    ∀ ch ∈ whiteSpace, ¬member ch = true :=
  fun ch isBlank => by simp [foreign ch isBlank]

theorem isHexDigit_blank : ∀ ch ∈ whiteSpace, isHexDigit ch = false := by
  decide

theorem isDecimalDigit_blank : ∀ ch ∈ whiteSpace, isDecimalDigit ch = false := by
  decide

theorem isIdentifierPart_blank : ∀ ch ∈ whiteSpace, isIdentifierPart ch = false := by
  decide +kernel

theorem hexDigits_repeats (count value : Nat) :
    o.Repeats Eq (Escape.hexDigits o.left count value) (Escape.hexDigits o.right count value) c := by
  induction count generalizing c value with
  | zero => exact .pure rfl
  | succ count ih =>
    refine .of_early ((Escape.hexDigits_along _ _).imp fun _ _ along => along.le) fun early => ?_
    refine .get_bind fun behind d index => ?_
    by_cases isEnd : c.index = o.stop
    · simp only [o.here (isEnd ▸ behind) (isEnd ▸ index), isHexDigit_blank _ o.isBlank, Bool.false_eq_true, if_false]
      split
      · exact .pure rfl
      · split
        · exact .past_skip early (isEnd ▸ Nat.lt_succ_self _) (ih _)
        · exact .pure rfl
    · rw [o.chars behind (by omega) index]
      split
      · exact .pure rfl
      · exact .ite (fun _ => .skip_bind (ih _)) fun _ => .pure rfl

theorem hexDigits_none (count value : Nat) (abreast : o.Abreast c d) (early : c.index ≤ o.stop)
    {c' : Cursor} (run : Escape.hexDigits o.left count value c = .ok none c') :
    Meets (Escape.hexDigits o.right count value) d
      (fun found e => found = none ∧ ∃ j, e = { d with index := j }) (only .exhausted) := by
  induction count generalizing c d value with
  | zero => cases run
  | succ count ih =>
    refine .get_bind ?_
    by_cases isEnd : c.index = o.stop
    · simp only [o.here (isEnd ▸ abreast.behind) (isEnd ▸ abreast.index), isHexDigit_blank _ o.isBlank,
        Bool.false_eq_true, if_false]
      exact ⟨rfl, d.index, rfl⟩
    · rw [o.chars abreast.behind (by omega) abreast.index]
      obtain ⟨_, _, got, rest⟩ := bind_ok_iff.mp run
      cases got
      split
      next => exact ⟨rfl, d.index, rfl⟩
      next ch found =>
        rw [found] at rest
        dsimp only at rest
        split
        next isHex =>
          rw [if_pos isHex] at rest
          exact .modify_bind (ih _ (abreast.skip 1) (show c.index + 1 ≤ o.stop by omega) rest)
        next => exact ⟨rfl, d.index, rfl⟩

theorem bracedDigits_repeats :
    o.Repeats Eq (Escape.bracedDigits o.left) (Escape.bracedDigits o.right) c := by
  refine .iterate (fun value c => ?_) _ _ 0 c
  refine .atEnd_ite (Nat.le_refl _) (.next_bind fun ch _ => ?_)
  exact .ite (fun _ => .pure rfl) fun _ => .pure rfl

theorem braced_repeats : o.Repeats Eq (Escape.braced o.left) (Escape.braced o.right) c := by
  refine .current_ite (by decide) (fun _ _ _ => .throw) (fun _ _ _ _ _ => trivial) fun _ _ _ _ => ?_
  refine bracedDigits_repeats.bind fun value d _ => ?_
  cases value with
  | some value => exact .ite (fun _ => .pure rfl) fun _ => .throw
  | none => exact .throw

/-! ### Texts -/

/-- A text that ends by the end of the stretch is ahead on the right, and the character behind it is
the same or a blank. -/
theorem exists_ahead (o : Overlay) {i j : Nat} {text rest : Text} {next : CodePoint}
    (found : o.left.ahead i = text ++ next :: rest) (behind : o.leftBase ≤ i)
    (index : i + o.rightBase = j + o.leftBase) (early : i + text.length ≤ o.stop) :
    ∃ next' rest', o.right.ahead j = text ++ next' :: rest' ∧ (next' = next ∨ next' = o.blank) := by
  have same (k : Nat) (ch : CodePoint) (here : text[k]? = some ch) : o.right[j + k]? = some ch := by
    have inside := (List.getElem?_eq_some_iff.mp here).1
    rw [o.chars (by omega) (by omega) (show i + k + _ = _ by omega)]
    exact Source.getElem?_append found here
  obtain ⟨rest', found'⟩ := exists_append same
  have after := ahead_append found'
  by_cases isEnd : i + text.length = o.stop
  · rw [ahead_of_found (o.here (by omega) (by omega))] at after
    exact ⟨_, _, after ▸ found', .inr rfl⟩
  · have there := getElem?_head (ahead_append found)
    rw [← o.chars (by omega) (by omega) (show _ = j + text.length + _ by omega)] at there
    rw [ahead_of_found there] at after
    exact ⟨_, _, after ▸ found', .inl rfl⟩

/-- A scanner that takes a text on the left, if it takes it on the right as well. -/
theorem took_repeats {n : ScanM β} {alike : β → Prop} {text rest : Text} {c' : Cursor}
    (took : c.Took o.left text rest c')
    (reads : ∀ (d : Cursor) next more next' rest', rest = next :: more → next' = next ∨ next' = o.blank →
      o.right.ahead d.index = text ++ next' :: rest' → c.index + o.rightBase = d.index + o.leftBase →
      ∃ b, n d = .ok b { d with index := d.index + text.length } ∧ alike b) :
    c.index ≤ c'.index ∧ (c'.index ≤ o.stop → ∀ d, o.Abreast c d →
      Meets n d (fun b d' => alike b ∧ o.Abreast c' d') (only .exhausted)) := by
  refine ⟨took.index_eq ▸ Nat.le_add_right _ _, fun early d abreast => ?_⟩
  obtain ⟨next, more, ahead⟩ := Source.exists_ahead (Nat.lt_of_le_of_lt early o.inside)
  obtain rfl : rest = next :: more := took.ahead.symm.trans ahead
  obtain ⟨next', rest', found, isNext⟩ :=
    o.exists_ahead took.found abreast.behind abreast.index (took.index_eq ▸ early)
  obtain ⟨b, run, holds⟩ := reads d next more next' rest' rfl isNext found abreast.index
  unfold Meets
  rw [run, took.cursor]
  exact ⟨holds, abreast.skip _⟩

/-- A token on the left and what is read of it on the right. -/
structure Copies (o : Overlay) (strict strict' : Bool) (t u : Token) : Prop where
  lexeme : t.lexeme.Likened strict strict' u.lexeme
  raw : t.raw = u.raw
  start : t.start + o.rightBase = u.start + o.leftBase
  stop : t.stop + o.rightBase = u.stop + o.leftBase

variable {strict strict' : Bool}

theorem stops_of_next {next next' : CodePoint} {more : Text}
    (stops : Text.Stops isIdentifierPart (next :: more)) (isNext : next' = next ∨ next' = o.blank) (rest : Text) :
    Text.Stops isIdentifierPart (next' :: rest) := by
  refine Text.stops_cons ?_
  rcases isNext with rfl | rfl
  · exact stops next' more rfl
  · exact isIdentifierPart_blank _ o.isBlank

theorem nameToken_repeats (found : o.left[c.index]? = some ch) (starts : isIdentifierStart ch = true) :
    o.Repeats (o.Copies strict strict') (Lexer.nameToken o.left strict)
      (Lexer.nameToken o.right strict') c := by
  intro behind t c' run
  obtain ⟨parts, rest, spells, stops, took, rfl⟩ := (Lexer.nameToken_decides strict found starts).of_ok run
  refine took_repeats took fun d next more next' rest' isRest isNext found' index => ?_
  subst isRest
  refine ⟨Lexer.named strict' (NamePart.token parts d),
    bind_of_ok (Name.token_reads spells (stops_of_next stops isNext _) found'), ?_, ?_, ?_, ?_⟩
  · rw [Lexer.named_lexeme, Lexer.named_lexeme]
    exact .name _
  · cases strict <;> cases strict' <;> rfl
  · cases strict <;> cases strict' <;> exact index
  · cases strict <;> cases strict' <;> simp only [Lexer.named, NamePart.token, if_true, if_false,
      Bool.false_eq_true] <;> omega

theorem followed_blank {n : Numeral} : ∀ ch ∈ whiteSpace, n.Followed ch := by
  have all : ∀ ch ∈ whiteSpace, Numeral.isGlued ch = false ∧ ch ≠ 0x2E := by decide +kernel
  exact fun ch isBlank => ⟨(all ch isBlank).1, fun _ _ => (all ch isBlank).2⟩

theorem number_repeats (starts : Numeral.Starts (o.left.ahead c.index)) :
    o.Repeats (o.Copies strict strict') (Numeric.token o.left) (Numeric.token o.right) c := by
  intro behind token c' run
  obtain ⟨n, next, rest, valid, followed, took, rfl⟩ := (Numeral.token_followed o.ends starts).of_ok run
  refine took_repeats took fun d _ _ next' rest' isRest isNext found index => ?_
  cases isRest
  have followed' : n.Followed next' := by
    rcases isNext with rfl | rfl
    · exact followed
    · exact followed_blank _ o.isBlank
  refine ⟨n.token d, Numeral.token_reads valid followed' found, .fixed nofun, rfl, index, ?_⟩
  simp only [Numeral.token]
  omega

/-- A number that starts with a point takes the digit behind it. -/
theorem point_passes (found : o.left[c.index]? = some 0x2E) (next : o.left[c.index + 1]? = some ch)
    (isDigit : isDecimalDigit ch = true) :
    Meets (Numeric.token o.left) c (fun _ d => c.index + 1 < d.index) anyFault := by
  have ahead := ahead_of_found found
  rw [ahead_of_found next] at ahead
  refine (Numeral.token_followed o.ends (ahead ▸ .point isDigit)).imp ?_
  rintro _ d ⟨n, next, rest, valid, -, took, -⟩
  rw [took.index_eq]
  have starts := Numeral.starts_spelling valid []
  have begins := took.found
  rw [append_nil] at starts
  cases spelled : n.spelling with
  | nil => exact absurd spelled (Numeral.spelling_ne_nil valid)
  | cons first others =>
    rw [ahead, spelled] at begins
    obtain ⟨rfl, -⟩ := List.cons.inj begins
    rw [spelled] at starts
    cases starts with
    | digit isDigit => cases isDigit
    | point isDigit => simp

theorem regExp_repeats (slash : o.left[c.index]? = some 0x2F) :
    o.Repeats (fun r r' => r.pattern = r'.pattern ∧ r.flags = r'.flags ∧ r.raw = r'.raw)
      (RegExp.scan o.left) (RegExp.scan o.right) c := by
  intro behind r c' run
  obtain ⟨pattern, flags, rest, spelled, rfl, took, -⟩ :=
    (RegExp.scan_meets (ahead_of_found slash)).of_ok run
  refine took_repeats took fun d next more next' rest' isRest isNext found index => ?_
  subst isRest
  have outside := stops_of_next spelled.stops isNext rest' next' rest' rfl
  exact ⟨_, RegExp.scan_reads (spelled.followed outside) found, rfl, rfl, rfl⟩

/-! ### Marks -/

theorem prefix_slice_iff {src : Source} {i : Nat} {text : Text} (short : text.length ≤ 4) :
    text <+: src.slice i (i + 4) ↔ ∀ k (inside : k < text.length), src[i + k]? = some text[k] := by
  rw [prefix_iff_getElem?]
  refine forall_congr' fun k => forall_congr' fun inside => ?_
  rw [slice_getElem? (by omega)]

theorem scannedTable_solid : ∀ entry ∈ Punctuator.scannedTable,
    entry.1.length ≤ 4 ∧ ∀ ch ∈ whiteSpace, ch ∉ entry.1 := by
  decide

theorem prefix_of_right (o : Overlay) {i j : Nat} {text : Text} (behind : o.leftBase ≤ i)
    (index : i + o.rightBase = j + o.leftBase) (early : i ≤ o.stop) (short : text.length ≤ 4)
    (solid : ∀ ch ∈ whiteSpace, ch ∉ text) (found : text <+: o.right.slice j (j + 4)) :
    text <+: o.left.slice i (i + 4) := by
  rw [prefix_slice_iff short] at found ⊢
  intro k inside
  by_cases front : i + text.length ≤ o.stop
  · rw [← o.chars (by omega) (by omega) (show i + k + _ = j + k + _ by omega)]
    exact found k inside
  · have blank := found (o.stop - i) (by omega)
    rw [o.here (by omega) (by omega)] at blank
    have member : o.blank ∈ text := by
      rw [Option.some.inj blank]
      exact getElem_mem _
    exact absurd member (solid _ o.isBlank)

theorem longest?_eq (o : Overlay) {i j : Nat} {mark : Punctuator} (behind : o.leftBase ≤ i)
    (index : i + o.rightBase = j + o.leftBase) (early : i + mark.text.length ≤ o.stop)
    (found : Punctuator.longest? (o.left.slice i (i + 4)) = some mark) :
    Punctuator.longest? (o.right.slice j (j + 4)) = some mark := by
  obtain ⟨⟨text, mark'⟩, entry, isMark⟩ := Option.map_eq_some_iff.mp found
  obtain rfl : mark' = mark := isMark
  obtain ⟨starts, longer, shorter, table, none⟩ := List.find?_eq_some_iff_append.mp entry
  have member : (text, mark') ∈ Punctuator.scannedTable := by simp [table]
  obtain ⟨_, -, same⟩ := mem_map.mp member
  cases same
  have short := (scannedTable_solid _ member).1
  refine Option.map_eq_some_iff.mpr ⟨(mark'.text, mark'), ?_, rfl⟩
  refine List.find?_eq_some_iff_append.mpr ⟨?_, longer, shorter, table, fun other among => ?_⟩
  · rw [ isPrefixOf_iff_prefix, prefix_slice_iff short] at starts ⊢
    intro k inside
    have inside' : k < mark'.text.length := inside
    rw [o.chars (by omega) (by omega) (show i + k + _ = j + k + _ by omega)]
    exact starts k inside
  · -- A longer mark on the right would stand on the left as well.
    have listed : other ∈ Punctuator.scannedTable := by simp [table, among]
    obtain ⟨short', solid⟩ := scannedTable_solid other listed
    have absent := none other among
    simp only [Bool.not_eq_true', ← Bool.not_eq_true, isPrefixOf_iff_prefix] at absent ⊢
    exact fun found' => absent (o.prefix_of_right behind index (by omega) short' solid found')

theorem openBrace_repeats (brace : Brace) : o.Repeats Eq (openBrace brace) (openBrace brace) c := by
  intro behind _ c' run
  have opens : Meets (openBrace brace) c (fun _ c' => ∃ inner, c.braces = some inner ∧
      c' = { c with braces := some (inner ++ [brace]) }) anyFault := by
    refine .get_bind ?_
    split
    next inner opened => exact ⟨inner, opened, rfl⟩
    next => trivial
  obtain ⟨inner, opened, rfl⟩ := opens.of_ok run
  refine ⟨Nat.le_refl _, fun _ d abreast => .get_bind ?_⟩
  obtain ⟨inner', isInner, outer⟩ := abreast.braces
  obtain rfl : inner = inner' := Option.some.inj (opened.symm.trans isInner)
  simp only [outer]
  exact ⟨trivial, abreast.behind, abreast.index, ⟨_, rfl, by rw [append_assoc]⟩, abreast.lineBreak⟩

theorem closeBrace_repeats : o.Repeats Eq closeBrace closeBrace c := by
  intro behind _ c' run
  have closes : Meets closeBrace c (fun _ c' => ∃ inner, (c.braces = some inner ∧ inner ≠ []) ∧
      c' = { c with braces := some inner.dropLast }) anyFault := by
    refine .get_bind ?_
    split
    next => trivial
    next inner nonempty opened =>
      exact ⟨inner, ⟨opened, nonempty⟩, rfl⟩
    next => trivial
  obtain ⟨inner, ⟨opened, nonempty⟩, rfl⟩ := closes.of_ok run
  refine ⟨Nat.le_refl _, fun _ d abreast => ?_⟩
  obtain ⟨inner', isInner, outer⟩ := abreast.braces
  obtain rfl : inner = inner' := Option.some.inj (opened.symm.trans isInner)
  refine (closeBrace_meets outer (by simp [nonempty])).imp ?_
  rintro _ _ rfl
  refine ⟨rfl, abreast.behind, abreast.index, ⟨_, rfl, ?_⟩, abreast.lineBreak⟩
  rw [dropLast_append_of_ne_nil nonempty]

/-- What is done about a mark once it has been found. -/
def takeMark : Option Punctuator → ScanM Punctuator
  | none => throw .illegal
  | some .openBrace => do
    openBrace .block
    skip 1
    pure .openBrace
  | some .closeBrace => do
    skip 1
    closeBrace
    pure .closeBrace
  | some mark => do
    skip mark.text.length
    pure mark

theorem takeMark_moves (mark : Punctuator) :
    Meets (takeMark (some mark)) c (fun found d => found = mark ∧ d.index = c.index + mark.text.length)
      anyFault := by
  unfold takeMark
  split
  next none => cases none
  next isBrace =>
    cases isBrace
    refine .into (.get_bind ?_)
    split
    · exact ⟨rfl, rfl⟩
    · trivial
  next isBrace =>
    cases isBrace
    refine .modify_bind (.into ?_)
    refine .get_bind ?_
    split
    · trivial
    · exact ⟨rfl, rfl⟩
    · trivial
  next isMark =>
    cases isMark
    exact ⟨rfl, rfl⟩

theorem takeMark_repeats (mark : Punctuator) :
    o.Repeats Eq (takeMark (some mark)) (takeMark (some mark)) c := by
  unfold takeMark
  split
  next => exact .throw
  next => exact (openBrace_repeats _).bind fun _ _ _ => .skip_bind (.pure rfl)
  next => exact .skip_bind (closeBrace_repeats.bind fun _ _ _ => .pure rfl)
  next => exact .skip_bind (.pure rfl)

theorem mark_repeats (early : c.index < o.stop) :
    o.Repeats (o.Copies strict strict') (Mark.token o.left) (Mark.token o.right) c := by
  have marks : o.Repeats Eq (Mark.punctuator o.left) (Mark.punctuator o.right) c := by
    refine .current_early early fun ch _ => .get_bind fun behind d index => ?_
    show o.Repeats Eq (takeMark (Punctuator.longest? (o.left.slice c.index (c.index + 4))))
      (takeMark (Punctuator.longest? (o.right.slice d.index (d.index + 4)))) c
    cases found : Punctuator.longest? (o.left.slice c.index (c.index + 4)) with
    | none => exact .throw
    | some mark =>
      by_cases fits : c.index + mark.text.length ≤ o.stop
      · rw [o.longest?_eq behind index fits found]
        exact takeMark_repeats mark
      · exact .past (Nat.le_of_lt early) ((takeMark_moves mark).imp fun _ _ moved => by omega)
  refine .get_bind fun _ d index => marks.bind fun mark c' _ => .get_bind fun _ d' index' => .pure ?_
  exact ⟨.fixed nofun, rfl, index, index'⟩

/-! ### Strings and templates -/

theorem continuation_repeats (terminator : CodePoint) :
    o.Repeats Eq (StringLiteral.continuation o.left terminator)
      (StringLiteral.continuation o.right terminator) c := by
  have noted (c d : Cursor) (line start line' start' : Nat) (abreast : o.Abreast c d) :
      o.Abreast { c with lineNumber := line, lineStart := start }
        { d with lineNumber := line', lineStart := start' } :=
    abreast.move 0 ⟨rfl, rfl⟩ ⟨rfl, rfl⟩ abreast.lineBreak
  refine .modify_bind (Nat.le_refl _) (fun d => noted c d _ _ _ _) ?_
  refine (completeBreak_repeats terminator).bind fun _ c' _ => ?_
  exact .of_move rfl (fun _ => rfl) (Nat.le_refl _) rfl fun d => noted c' d _ _ _ _

theorem string_repeats (lineStart lineStart' : Option Nat) :
    o.Repeats (o.Copies strict strict') (StringLiteral.token o.left lineStart)
      (StringLiteral.token o.right lineStart') c := by
  intro behind token c' run
  obtain ⟨quote, elements, rest, isQuote, spelled, here, rfl, rfl⟩ :=
    (StringLiteral.token_returns lineStart).of_ok run
  obtain ⟨stop, -, braces⟩ := StringElement.close_eq c elements
  refine ⟨by omega, fun early d abreast => ?_⟩
  obtain ⟨stop', -, braces'⟩ := StringElement.close_eq d elements
  have index := abreast.index
  have here' : o.left.ahead c.index = (quote :: (StringElement.text elements ++ [quote])) ++ rest := by
    simpa using here
  have same (k : Nat) (ch : CodePoint)
      (at_k : (quote :: (StringElement.text elements ++ [quote]))[k]? = some ch) :
      o.right[d.index + k]? = some ch := by
    have inside := (List.getElem?_eq_some_iff.mp at_k).1
    simp only [length_cons, length_append, length_nil] at inside
    rw [o.chars (by omega) (by omega) (show c.index + k + _ = _ by omega)]
    exact Source.getElem?_append here' at_k
  obtain ⟨rest', there⟩ := exists_append same
  have there' : o.right.ahead d.index = quote :: (StringElement.text elements ++ quote :: rest') := by
    simpa using there
  have again : StringElement.Spelled quote elements (quote :: rest') := spelled.congr rfl
  unfold Meets
  rw [StringLiteral.token_reads lineStart' isQuote again there']
  refine ⟨⟨.fixed nofun, rfl, index, ?_⟩, ?_⟩
  · simp only [StringElement.token]
    omega
  · refine abreast.move ((StringElement.text elements).length + 2) ⟨stop, stop'⟩ ⟨braces, braces'⟩ ?_
    rw [(StringLiteral.close_passes isQuote spelled here).tracks.lineBreak,
      (StringLiteral.close_passes isQuote again there').tracks.lineBreak]
    exact abreast.lineBreak

theorem templateEscape_repeats : o.Repeats Eq (Template.escape o.left) (Template.escape o.right) c := by
  refine .next_bind fun ch _ => .ite (fun _ => ?_) fun _ => .ite (fun _ => ?_) fun _ => ?_
  · exact (continuation_repeats ch).bind fun _ _ _ => .pure rfl
  · refine .taking_ite (by decide) (fun _ _ _ => braced_repeats) fun _ _ _ _ => ?_
    generalize ({ c with index := c.index + 1 } : Cursor) = c
    -- Where digits are missing those that were taken are given back.
    intro behind text c' run
    obtain ⟨_, _, got, run⟩ := bind_ok_iff.mp run
    cases got
    obtain ⟨found, e, begun, rest⟩ := bind_ok_iff.mp run
    cases found with
    | some denoted =>
      cases rest
      obtain ⟨grown, goes⟩ := hexDigits_repeats _ _ behind _ _ begun
      refine ⟨grown, fun early d abreast => .get_bind ((goes early d abreast).bind ?_)⟩
      rintro _ _ ⟨rfl, abreast'⟩
      exact ⟨rfl, abreast'⟩
    | none =>
      obtain ⟨j, -, rfl⟩ := (Escape.hex_along _ : Meets _ _ _ anyFault).of_ok begun
      cases rest
      refine ⟨Nat.le_refl _, fun early d abreast => .get_bind ?_⟩
      refine (hexDigits_none _ _ abreast early begun).bind ?_
      rintro _ _ ⟨rfl, k, rfl⟩
      exact ⟨rfl, abreast⟩
  · cases StringLiteral.control? ch with
    | some denoted => exact .pure rfl
    | none =>
      refine .ite (fun _ => ?_) fun _ => .ite (fun _ => .throw) fun _ => .pure rfl
      exact .current_ite (not_blank isDecimalDigit_blank) (fun _ _ _ => .throw)
        (fun _ _ _ _ _ => trivial) fun _ _ _ _ => .pure rfl

theorem templateBody_repeats : o.Repeats Eq (Template.body o.left) (Template.body o.right) c := by
  refine .iterate (fun cooked c => ?_) _ _ [] c
  refine .atEnd_ite trivial (.next_bind fun ch _ => .ite (fun _ => .pure rfl) fun _ => ?_)
  refine .ite (fun _ => ?_) fun _ => .ite (fun _ => ?_) fun _ => .ite (fun _ => ?_) fun _ => .pure rfl
  · refine .current_ite (by decide) (fun _ _ _ => ?_) (fun behind isEnd _ _ _ => ?_) fun _ _ _ _ => .pure rfl
    · exact (openBrace_repeats _).bind fun _ _ _ => .skip_bind (.pure rfl)
    · refine ((openBrace_repeats (o := o) _).grows behind).bind fun _ d grown => ?_
      exact Nat.lt_succ_of_le (isEnd ▸ grown)
  · exact templateEscape_repeats.bind fun _ _ _ => .pure rfl
  · exact (continuation_repeats ch).bind fun _ _ _ => .pure rfl

theorem template_repeats (early : c.index < o.stop) :
    o.Repeats (o.Copies strict strict') (Template.token o.left) (Template.token o.right) c := by
  refine .get_bind fun behind d index => .current_early early fun ch _ => .skip_bind ?_
  refine templateBody_repeats.bind fun (cooked, tail) c' run => ?_
  obtain ⟨grown, -⟩ := templateBody_repeats (o := o) (Nat.le_succ_of_le behind) _ _ run
  have spelled (e : Cursor) (grown' : c'.index ≤ e.index) : o.Repeats (o.Copies strict strict') (do
        let here ← get
        pure
          { lexeme := .template cooked
              (o.left.slice (c.index + 1) (here.index - if tail then 1 else 2)) (ch = 0x60) tail
            lineNumber := here.lineNumber
            lineStart := some here.lineStart
            start := c.index
            stop := here.index })
      (do
        let here ← get
        pure
          { lexeme := .template cooked
              (o.right.slice (d.index + 1) (here.index - if tail then 1 else 2)) (ch = 0x60) tail
            lineNumber := here.lineNumber
            lineStart := some here.lineStart
            start := d.index
            stop := here.index }) e := by
    refine .get_bind fun _ d' index' => .pure_of fun early => ?_
    rw [o.slice_eq (i := c.index + 1) (m := e.index - if tail then 1 else 2) (by omega) (by omega)
      (fun k => by dsimp only at grown; omega) (by omega)]
    exact ⟨.fixed nofun, rfl, index, index'⟩
  refine .ite (fun _ => spelled c' (Nat.le_refl _)) fun _ => closeBrace_repeats.bind fun _ e closed => ?_
  exact spelled e (closeBrace_repeats (o := o) (Nat.le_trans behind (Nat.le_of_succ_le grown)) _ _ closed).1

/-! ### Tokens -/

theorem resumesTemplate_repeats :
    o.Repeats Eq Lexer.resumesTemplate Lexer.resumesTemplate c := by
  intro behind resumes c' run
  have resumed : Meets Lexer.resumesTemplate c (fun resumes c' => ∃ inner brace, (c.braces = some inner ∧
      inner.getLast? = some brace) ∧ resumes = decide (brace = .substitution) ∧ c' = c) anyFault := by
    refine .get_bind ?_
    split
    next => trivial
    next inner opened =>
      split
      next => trivial
      next brace last => exact ⟨inner, brace, ⟨opened, last⟩, rfl, rfl⟩
  obtain ⟨inner, brace, ⟨opened, last⟩, rfl, rfl⟩ := resumed.of_ok run
  refine ⟨Nat.le_refl _, fun _ d abreast => .get_bind ?_⟩
  obtain ⟨inner', isInner, outer⟩ := abreast.braces
  obtain rfl : inner = inner' := Option.some.inj (opened.symm.trans isInner)
  simp only [outer, List.getLast?_append, last, Option.some_or]
  exact ⟨rfl, abreast⟩

/-- A token that starts in the stretch and ends by its end. -/
theorem token_repeats (strict strict' : Bool) (lineStart lineStart' : Option Nat) (early : c.index < o.stop) :
    o.Repeats (o.Copies strict strict') (Lexer.token o.left strict lineStart)
      (Lexer.token o.right strict' lineStart') c := by
  refine .atEnd_ite (Nat.le_refl _) (.current_early early fun ch found => ?_)
  refine .ite (fun starts => nameToken_repeats found starts) fun _ => ?_
  refine .ite (fun _ => mark_repeats early) fun _ => ?_
  refine .ite (fun _ => string_repeats lineStart lineStart') fun _ => .ite (fun isPoint => ?_) fun _ => ?_
  · subst isPoint
    refine .ahead_bind (.inl early) (fun _ ch' next => ?_) fun nextIs ch' next => ?_
    · refine .ite (fun isDigit => number_repeats ?_) fun _ => mark_repeats early
      rw [ahead_of_found found, ahead_of_found next]
      exact .point isDigit
    · rw [isDecimalDigit_blank _ o.isBlank, if_neg Bool.false_ne_true]
      split
      next isDigit =>
        exact .past (Nat.le_of_lt early) (nextIs ▸ point_passes found next isDigit)
      next => exact mark_repeats early
  refine .ite (fun isDigit => ?_) fun _ => .ite (fun _ => template_repeats early) fun _ => ?_
  · refine number_repeats ?_
    rw [ahead_of_found found]
    exact .digit isDigit
  refine .ite (fun _ => ?_) fun _ => mark_repeats early
  refine resumesTemplate_repeats.bind fun _ d run => ?_
  have stays : Meets Lexer.resumesTemplate c (fun _ d => d = c) anyFault := by
    refine .get_bind ?_
    split
    · trivial
    · split
      · trivial
      · exact rfl
  obtain rfl := stays.of_ok run
  exact .ite (fun _ => template_repeats early) fun _ => mark_repeats early

end Overlay

end EcmaScript
