import EcmaScript.Proofs.Spelling

/-!
Printed pieces one after another. Between two of them stands one blank at most, and behind the last
one the sentinel, so that reading tokens gives the pieces, the semicolon of the sentinel and the end.
-/

namespace EcmaScript

open Scan Character List Source Layout

variable {src : Source} {index : Nat} {text rest : Text} {c : Cursor}
variable {fails : ScanFault → Cursor → Prop}

/-! ### Layout between pieces -/

variable {fresh : Bool}

namespace Layout.Solid

theorem of_plain {ch : CodePoint} (found : src.ahead index = ch :: rest)
    (visible : isWhiteSpace ch = false) (sameLine : isLineTerminator ch = false)
    (other : ch ∉ [0x2F, 0x2D, 0x3C]) : Layout.Solid src fresh index := by
  have first := getElem?_head found
  simp only [mem_cons, not_mem_nil, or_false, not_or] at other
  refine ⟨ch, first, visible, sameLine, fun isSlash => ?_, fun isMinus => ?_, fun isLess => ?_⟩
  · exact absurd (Option.some.inj (first.symm.trans isSlash)) other.1
  · exact absurd isMinus other.2.1
  · exact absurd isLess other.2.2

/-- No layout starts as an identifier does. -/
theorem of_start {ch : CodePoint} (found : src.ahead index = ch :: rest)
    (starts : isIdentifierStart ch = true) : Layout.Solid src fresh index := by
  have foreign : ∀ ch ∈ whiteSpace ++ lineTerminators ++ [0x2F, 0x2D, 0x3C],
      isIdentifierStart ch = false := by
    decide +kernel
  have outside : ch ∉ whiteSpace ++ lineTerminators ++ [0x2F, 0x2D, 0x3C] := by
    intro member
    rw [foreign ch member] at starts
    cases starts
  simp only [mem_append, not_or] at outside
  exact of_plain found (by simpa [isWhiteSpace] using outside.1.1)
    (by simpa [isLineTerminator] using outside.1.2) outside.2

theorem of_second {ch second : CodePoint}
    (found : src.ahead index = ch :: second :: rest) (visible : isWhiteSpace ch = false)
    (sameLine : isLineTerminator ch = false) (late : ch = 0x2D → fresh = false)
    (harmless : second ∉ [0x2F, 0x2A, 0x21]) : Layout.Solid src fresh index := by
  have first := getElem?_head found
  have next := getElem?_head (ahead_cons found)
  simp only [mem_cons, not_mem_nil, or_false, not_or] at harmless
  refine ⟨ch, first, visible, sameLine, fun _ => ?_, late, fun _ opens => ?_⟩
  · exact ⟨second, next, harmless.1, harmless.2.1⟩
  · have head := congrArg List.head? opens
    rw [src.slice_ahead (index + 1) 3, ahead_cons found] at head
    exact harmless.2.2 (Option.some.inj head)

end Layout.Solid

theorem IsSpelledOut.solid {word : Text} (spelledOut : IsSpelledOut word)
    (found : src.ahead index = word ++ rest) : Layout.Solid src fresh index := by
  obtain ⟨nonempty, letters⟩ := spelledOut
  obtain ⟨first, more, rfl⟩ := exists_cons_of_ne_nil nonempty
  have letter := letters first mem_cons_self
  have foreign : ∀ ch ∈ (whiteSpace ++ lineTerminators) ++ [0x2F, 0x2D, 0x3C],
      isAsciiLetter ch = false := by
    decide
  have outside : first ∉ (whiteSpace ++ lineTerminators) ++ [0x2F, 0x2D, 0x3C] := by
    intro member
    rw [foreign first member] at letter
    cases letter
  simp only [mem_append, not_or] at outside
  refine .of_plain found ?_ ?_ outside.2
  · simpa [isWhiteSpace] using outside.1.1
  · simpa [isLineTerminator] using outside.1.2

theorem Punctuator.solid_text {mark : Punctuator}
    (found : src.ahead index = mark.text ++ rest) (delimited : (Piece.mark mark).Delimited rest)
    (scans : mark ∈ scanned) (late : mark.text.head? = some 0x2D → fresh = false) :
    Layout.Solid src fresh index := by
  have table : scanned.all fun mark => mark.text.head?.all (fun ch =>
      !isWhiteSpace ch && !isLineTerminator ch) && mark.text.tail.all fun ch =>
        !([0x2F, 0x2A, 0x21] : Text).contains ch := by
    decide
  have known := all_eq_true.mp table mark scans
  obtain isParen | ⟨delimiter, more, rfl, delimits⟩ := delimited
  · cases isParen
    exact .of_plain (show src.ahead index = 0x28 :: rest from found) (by decide) (by decide)
      (by decide)
  · obtain ⟨first, others, spelled⟩ := exists_cons_of_ne_nil (Mark.text_ne_nil mark)
    simp only [spelled, List.head?_cons, Option.all_some, tail_cons, Bool.and_eq_true,
      Bool.not_eq_true'] at known
    obtain ⟨⟨visible, sameLine⟩, harmless⟩ := known
    rw [spelled] at found
    have late : first = 0x2D → fresh = false := by
      rintro rfl
      exact late (by rw [spelled]; rfl)
    cases others with
    | nil =>
      refine .of_second found visible sameLine late ?_
      have all : ∀ ch ∈ delimiters, ch ∉ ([0x2F, 0x2A, 0x21] : Text) := by decide
      rw [isDelimiter, contains_iff_mem] at delimits
      exact all delimiter delimits
    | cons second others =>
      refine .of_second found visible sameLine late ?_
      simp only [all_cons, Bool.and_eq_true] at harmless
      simpa using harmless.1

theorem Piece.solid_text {piece : Piece} {depth after : Nat}
    (found : src.ahead index = piece.text ++ rest) (delimited : piece.Delimited rest)
    (legible : piece.depthAfter? depth = some after)
    (late : piece.text.head? = some 0x2D → fresh = false) : Layout.Solid src fresh index := by
  cases piece with
  | mark mark =>
    exact mark.solid_text found delimited (Punctuator.mem_scanned (by rintro rfl; cases legible))
      late
  | quoted string => exact .of_plain found (by decide) (by decide) (by decide)
  | hexadecimal number => exact .of_plain found (by decide) (by decide) (by decide)
  | keyword reserved => exact reserved.isSpelledOut.solid found
  | word letters => exact letters.isSpelledOut.solid found
  | boolean value => exact (Lexeme.booleanText_isSpelledOut value).solid found
  | null => exact null_isSpelledOut.solid found

namespace Layout

theorem skipAll_gap {gap : Text} {returns : Unit → Cursor → Prop} (small : gap = [] ∨ gap = [0x20])
    (found : src.ahead c.index = gap ++ text) (solid : Solid src (c.index = 0) (c.index + gap.length))
    (met : returns () { c with index := c.index + gap.length, lineBreak := some false }) :
    Meets (skipAll src) c returns fails := by
  obtain rfl | rfl := small
  · exact skipAll_solid solid met
  · refine .modify_bind (.get_bind ?_)
    have inside := lt_size_of_ahead found
    obtain ⟨rounds, enough⟩ : ∃ rounds, src.size + 1 = rounds + 1 + 1 := ⟨src.size - 1, by omega⟩
    rw [repeated, enough]
    refine .into (atEnd_ahead found (current_ahead found ?_))
    rw [if_pos (by decide)]
    refine .modify_bind ?_
    exact .into (piece_solid solid met)

theorem piece_blank {returns : Bool ⊕ Unit → Cursor → Prop} (found : src.ahead c.index = 0x20 :: rest)
    (met : returns (.inl fresh) { c with index := c.index + 1 }) :
    Meets (piece src fresh) c returns fails := by
  refine atEnd_ahead found (current_ahead found ?_)
  rw [if_pos (by decide)]
  exact met

theorem piece_lineFeed {returns : Bool ⊕ Unit → Cursor → Prop}
    (found : src.ahead c.index = 0x0A :: rest) (met : returns (.inl true)
      { c with
        index := c.index + 1
        lineNumber := c.lineNumber + 1
        lineStart := c.index + 1
        lineBreak := some true }) : Meets (piece src fresh) c returns fails := by
  refine atEnd_ahead found (current_ahead found ?_)
  rw [if_neg (by decide), if_pos (by decide)]
  exact met

theorem skipLine_last {returns : Unit → Cursor → Prop} (found : src.ahead c.index = text)
    (bound : c.index ≤ src.size) (sameLine : ∀ ch ∈ text, isLineTerminator ch = false)
    (met : returns () { c with index := src.size }) : Meets (skipLine src) c returns fails := by
  refine repeated_meets (fun _ d => d.index ≤ src.size ∧ (∀ ch ∈ src.ahead d.index,
    isLineTerminator ch = false) ∧ d = { c with index := d.index }) (fun _ _ holds => holds.1)
    ?_ ⟨bound, found ▸ sameLine, rfl⟩
  rintro _ d ⟨bound', sameLine', moved⟩
  refine atEnd_ite (fun ended => ?_) fun inside => ?_
  · rw [moved, Nat.le_antisymm bound' ended]
    exact met
  · obtain ⟨ch, left, found'⟩ := exists_ahead inside
    have behind := ahead_cons found'
    refine next_ahead found' ?_
    rw [if_neg (by simp [sameLine' ch (by simp [found'])])]
    refine ⟨⟨inside, fun ch' member => ?_, by rw [moved]⟩, Nat.lt_succ_self _⟩
    rw [behind] at member
    exact sameLine' ch' (by simp [found', member])

theorem piece_slashes {returns : Bool ⊕ Unit → Cursor → Prop}
    (found : src.ahead c.index = 0x2F :: 0x2F :: rest)
    (skips : Meets (skipLine src) { c with index := c.index + 2 } (fun _ => returns (.inl true)) fails) :
    Meets (piece src fresh) c returns fails := by
  refine atEnd_ahead found (current_ahead found ?_)
  rw [if_neg (by decide), if_neg (by decide), if_pos rfl]
  refine ahead_found (getElem?_head (ahead_cons found)) ?_
  rw [if_pos rfl]
  exact .modify_bind (.into skips)

theorem piece_comment {returns : Bool ⊕ Unit → Cursor → Prop}
    (found : src.ahead c.index = 0x2F :: 0x2F :: rest)
    (sameLine : ∀ ch ∈ rest, isLineTerminator ch = false)
    (met : returns (.inl true) { c with index := src.size }) :
    Meets (piece src fresh) c returns fails := by
  have behind := ahead_cons found
  refine piece_slashes found ?_
  exact skipLine_last (ahead_cons behind) (lt_size_of_ahead behind) sameLine met

end Layout

/-! ### Pieces one after another -/

theorem Piece.text_ne_nil (piece : Piece) : piece.text ≠ [] := by
  cases piece with
  | mark punctuator => exact Mark.text_ne_nil punctuator
  | keyword reserved => exact reserved.isSpelledOut.1
  | word letters => exact letters.nonempty
  | boolean value => exact (Lexeme.booleanText_isSpelledOut value).1
  | null => exact null_isSpelledOut.1
  | quoted | hexadecimal => exact cons_ne_nil _ _

/-- Pieces that can be read back where `depth` braces are open. -/
def Legible : Nat → List Piece → Prop
  | _, [] => True
  | depth, piece :: pieces =>
    ∃ after, piece.depthAfter? depth = some after ∧ Legible after pieces

/-- A text that holds the pieces, the last of which is the semicolon of the sentinel. -/
inductive Spells : List Piece → Text → Prop where
  | last : Spells [.mark .semicolon] Parser.sentinel
  | next {piece : Piece} {pieces : List Piece} {gap rest : Text} (small : gap = [] ∨ gap = [0x20])
      (delimited : piece.Delimited rest) (more : Spells pieces rest) :
      Spells (piece :: pieces) (gap ++ (piece.text ++ rest))

variable {pieces : List Piece}

theorem Spells.length_le (spells : Spells pieces text) : pieces.length ≤ text.length := by
  induction spells with
  | last => decide
  | @next piece pieces gap rest small delimited more ih =>
    have positive := length_pos_iff.mpr piece.text_ne_nil
    simp only [length_cons, length_append]
    omega

/-- What the grammar sees of the pieces: the first of them, or else the end. -/
def nextLexeme : List Piece → Lexeme
  | [] => .endOfSource
  | piece :: _ => piece.lexeme

/-- The token is the first of the pieces. -/
def Token.Matches (token : Token) : List Piece → Prop
  | [] => token.lexeme = .endOfSource
  | piece :: _ => token.lexeme = piece.lexeme ∧ token.raw = piece.raw

theorem Token.Matches.lexeme_eq {token : Token}
    (isFirst : token.Matches pieces) : token.lexeme = nextLexeme pieces := by
  cases pieces with
  | nil => exact isFirst
  | cons piece pieces => exact isFirst.1

/-- The token after the layout at the cursor, in code that is not strict. -/
def nextToken (src : Source) : ScanM Token := do
  Layout.skipAll src
  let here ← get
  Lexer.token src false (some here.lineStart)

/-- What the characters at the index tell of the piece that comes next: a semicolon there is the
piece, and where a name starts behind one blank, the piece is no semicolon. -/
def Foretells (src : Source) (index : Nat) : List Piece → Prop
  | [] => True
  | piece :: _ =>
    ∃ ch, src[index]? = some ch ∧ (ch = 0x3B → piece = .mark .semicolon) ∧
      (ch = 0x20 → ∃ second, src[index + 1]? = some second ∧
        (isIdentifierStart second = true → piece ≠ .mark .semicolon))

/-- What reading tokens from the cursor on gives: the pieces, and then the end. A line ends only
before the semicolon of the sentinel. -/
def Supplies (src : Source) : List Piece → Cursor → Prop
  | [], c => Meets (nextToken src) c (fun token _ => token.Matches []) noFault
  | piece :: pieces, c =>
    Foretells src c.index (piece :: pieces) ∧
      Meets (nextToken src) c (fun token d => token.Matches (piece :: pieces) ∧
        Foretells src token.start (piece :: pieces) ∧
        (d.lineBreak = some true → piece :: pieces = [.mark .semicolon]) ∧ Supplies src pieces d)
        noFault

theorem Supplies.foretells (supplies : Supplies src pieces c) : Foretells src c.index pieces := by
  cases pieces with
  | nil => trivial
  | cons => exact supplies.1

/-- A piece is told by its first character. -/
theorem Piece.first_character (piece : Piece) : ∃ ch more, piece.text = ch :: more ∧ ch ≠ 0x20 ∧
    (ch = 0x3B → piece = .mark .semicolon) := by
  have word (spelledOut : IsSpelledOut piece.text) : ∃ ch more, piece.text = ch :: more ∧
      ch ≠ 0x20 ∧ (ch = 0x3B → piece = .mark .semicolon) := by
    obtain ⟨ch, more, spelled⟩ := exists_cons_of_ne_nil spelledOut.1
    have letter := spelledOut.2 ch (by simp [spelled])
    refine ⟨ch, more, spelled, ?_, ?_⟩
    · rintro rfl
      cases letter
    · rintro rfl
      cases letter
  cases piece with
  | mark mark =>
    have table : mark.text.head?.all fun ch => ch != 0x20 && (ch != 0x3B || mark == .semicolon) := by
      cases mark <;> rfl
    obtain ⟨ch, more, spelled⟩ := exists_cons_of_ne_nil (Mark.text_ne_nil mark)
    simp only [spelled, List.head?_cons, Option.all_some, Bool.and_eq_true, bne_iff_ne,
      Bool.or_eq_true, beq_iff_eq] at table
    exact ⟨ch, more, spelled, table.1, fun found => congrArg _ (table.2.resolve_left (· found))⟩
  | quoted | hexadecimal => exact ⟨_, _, rfl, by decide, fun same => absurd same (by decide)⟩
  | keyword reserved => exact word reserved.isSpelledOut
  | word letters => exact word letters.isSpelledOut
  | boolean value => exact word (Lexeme.booleanText_isSpelledOut value)
  | null => exact word null_isSpelledOut

theorem Foretells.of_ahead {gap : Text} {piece : Piece}
    (small : gap = [] ∨ gap = [0x20]) (found : src.ahead index = gap ++ (piece.text ++ rest)) :
    Foretells src index (piece :: pieces) := by
  obtain ⟨ch, more, spelled, notBlank, isSemicolon⟩ := piece.first_character
  rw [spelled] at found
  obtain rfl | rfl := small
  · exact ⟨ch, getElem?_head found, isSemicolon, fun isBlank => absurd isBlank notBlank⟩
  · have behind := ahead_cons (show src.ahead index = 0x20 :: ch :: (more ++ rest) from found)
    refine ⟨0x20, getElem?_head found, fun same => absurd same (by decide), fun _ => ?_⟩
    refine ⟨ch, getElem?_head behind, ?_⟩
    rintro starts rfl
    cases spelled
    cases starts

theorem Layout.skipAll_last {returns : Unit → Cursor → Prop}
    (found : src.ahead c.index = 0x20 :: 0x2F :: 0x2F :: rest)
    (sameLine : ∀ ch ∈ rest, isLineTerminator ch = false)
    (met : returns () { c with index := src.size, lineBreak := some false }) :
    Meets (skipAll src) c returns fails := by
  refine .modify_bind (.get_bind ?_)
  have slash := ahead_cons found
  have inside := lt_size_of_ahead slash
  obtain ⟨rounds, enough⟩ : ∃ rounds, src.size + 1 = rounds + 1 + 1 + 1 :=
    ⟨src.size - 2, by omega⟩
  rw [Scan.repeated, enough]
  refine .into (piece_blank found ?_)
  refine .into (piece_comment slash sameLine ?_)
  exact .into (atEnd_ite (fun _ => met) fun inside => absurd inside (Nat.lt_irrefl _))

theorem Supplies.nothing (found : src.ahead c.index = 0x20 :: 0x2F :: 0x2F :: rest)
    (sameLine : ∀ ch ∈ rest, isLineTerminator ch = false) : Supplies src [] c := by
  refine .into (skipAll_last found sameLine ?_)
  refine .get_bind ?_
  exact atEnd_ite (fun _ => rfl) fun inside => absurd inside (Nat.lt_irrefl _)

theorem Supplies.sentinel (found : src.ahead c.index = Parser.sentinel)
    {depth : Nat} (opened : c.braces = some (List.replicate depth .block)) :
    Supplies src [.mark .semicolon] c := by
  have blank : src.ahead c.index =
      0x20 :: 0x0A :: 0x20 :: ([0x3B] ++ 0x20 :: 0x2F :: 0x2F :: [0x45, 0x4E, 0x44]) := found
  have lineFeed := ahead_cons blank
  have blank' := ahead_cons lineFeed
  have semicolon := ahead_cons blank'
  have behind := ahead_cons semicolon
  have inside := lt_size_of_ahead semicolon
  obtain ⟨rounds, enough⟩ : ∃ rounds, src.size + 1 = rounds + 1 + 1 + 1 + 1 :=
    ⟨src.size - 3, by omega⟩
  have delimited : (Piece.mark .semicolon).Delimited (0x20 :: 0x2F :: 0x2F :: [0x45, 0x4E, 0x44]) :=
    .inr ⟨_, _, rfl, rfl⟩
  have foretold : Foretells src c.index [.mark .semicolon] := by
    refine ⟨0x20, getElem?_head blank, fun _ => rfl, fun _ => ?_⟩
    exact ⟨0x0A, getElem?_head lineFeed, fun starts => absurd starts (by decide)⟩
  refine ⟨foretold, ?_⟩
  refine .into (.modify_bind (.into ?_))
  refine Meets.get_iff.mpr ?_
  rw [Scan.repeated, enough]
  refine .into (piece_blank blank ?_)
  refine .into (piece_lineFeed lineFeed ?_)
  refine .into (piece_blank blank' ?_)
  refine .into (piece_solid (.of_plain semicolon rfl rfl (by decide)) ?_)
  refine .into (Meets.get_iff.mpr ?_)
  refine Meets.imp (Lexer.token_piece _ _ semicolon delimited opened rfl nofun) fun token d met => ?_
  obtain ⟨lexeme, raw, start, rfl⟩ := met
  refine ⟨⟨lexeme, raw⟩, ?_, fun _ => rfl, .nothing behind (by decide)⟩
  rw [start]
  exact .of_ahead (.inl rfl) semicolon

theorem nextToken_piece {gap : Text} {piece : Piece} {depth after : Nat} (small : gap = [] ∨ gap = [0x20])
    (found : src.ahead c.index = gap ++ (piece.text ++ rest)) (delimited : piece.Delimited rest)
    (opened : c.braces = some (List.replicate depth .block)) (legible : piece.depthAfter? depth = some after)
    (late : piece.text.head? = some 0x2D → 0 < c.index) :
    Meets (nextToken src) c (fun token d => token.Matches [piece] ∧ token.start = c.index + gap.length ∧
      d = { c with
        index := c.index + gap.length + piece.text.length
        lineBreak := some false
        braces := some (List.replicate after .block) }) fails := by
  have behind := ahead_append found
  have solid : Layout.Solid src (c.index = 0) (c.index + gap.length) := by
    refine piece.solid_text behind delimited legible fun isMinus => ?_
    exact decide_eq_false (Nat.ne_of_gt (late isMinus))
  refine .into (skipAll_gap small found solid ?_)
  refine .get_bind ?_
  refine Meets.imp (Lexer.token_piece _ _ behind delimited opened legible nofun) fun token d met => ?_
  obtain ⟨lexeme, raw, start, rfl⟩ := met
  exact ⟨⟨lexeme, raw⟩, start, rfl⟩

theorem Supplies.of_spells (spells : Spells pieces text) :
    ∀ {c : Cursor} {depth : Nat}, src.ahead c.index = text →
      c.braces = some (List.replicate depth .block) → Legible depth pieces →
      (∀ piece ∈ pieces.head?, piece.text.head? = some 0x2D → 0 < c.index) → Supplies src pieces c := by
  induction spells with
  | last => exact fun found opened _ _ => .sentinel found opened
  | @next piece pieces gap rest small delimited more ih =>
    intro c depth found opened legible late
    obtain ⟨after, legible, legible'⟩ := legible
    have behind := ahead_append found
    have positive := length_pos_iff.mpr piece.text_ne_nil
    refine ⟨.of_ahead small found, ?_⟩
    refine (nextToken_piece small found delimited opened legible (late piece rfl)).imp fun token d met => ?_
    obtain ⟨isFirst, start, rfl⟩ := met
    refine ⟨isFirst, ?_, nofun, ih (ahead_append behind) rfl legible' fun _ _ _ => ?_⟩
    · rw [start]
      exact .of_ahead (.inl rfl) behind
    · show 0 < c.index + gap.length + piece.text.length
      omega

end EcmaScript
