import EcmaScript.Proofs.Legibility
import EcmaScript.Proofs.Tokenization

/-!
The test for identifiers against the scanner of names. Both ask for a first character that may start an
identifier, for others that may go on with one, and for no keyword. The scanner knows two things more: the
words of literals are no identifiers, and a backslash opens an escape. Main statement: the test and the
scanner differ in nothing else.
-/

namespace EcmaScript

open Scan Character

variable {p : Parser} {context : Context} {w : Text}

/-! ### Words -/

/-- A word by its characters alone; the backslash counts among those of names. -/
def Text.IsWord (w : Text) : Prop :=
  ∃ first others, w = first :: others ∧ isIdentifierStart first = true ∧
    ∀ ch ∈ others, isIdentifierPart ch = true

/-- The words that the test lets through and the scanner does not return as they are. -/
def Text.IsOverlooked (w : Text) : Prop :=
  w = ofString "null" ∨ w = ofString "true" ∨ w = ofString "false" ∨ 0x5C ∈ w ∧ w.IsWord

theorem Text.isValidIdentifier_iff : w.isValidIdentifier = true ↔ Keyword.ofText? w = none ∧ w.IsWord := by
  cases w with
  | nil => exact ⟨nofun, fun ⟨_, _, _, spelled, _⟩ => nomatch spelled⟩
  | cons first others =>
    simp only [isValidIdentifier, isKeyword, Bool.and_eq_true, Bool.not_eq_true', Option.isSome_eq_false_iff,
      Option.isNone_iff_eq_none, List.all_eq_true, and_assoc]
    refine and_congr_right fun _ => ⟨fun ⟨starts, goesOn⟩ => ⟨first, others, rfl, starts, goesOn⟩, ?_⟩
    rintro ⟨_, _, ⟨⟩, starts, goesOn⟩
    exact ⟨starts, goesOn⟩

theorem Keyword.noBackslash (word : Keyword) : 0x5C ∉ word.text := by
  cases word <;> decide

theorem Text.IsOverlooked.isWord (overlooked : w.IsOverlooked) : w.IsWord := by
  rcases overlooked with rfl | rfl | rfl | ⟨-, isWord⟩
  · exact ⟨0x6E, Text.ofString "ull", by decide, by decide, by decide⟩
  · exact ⟨0x74, Text.ofString "rue", by decide, by decide, by decide⟩
  · exact ⟨0x66, Text.ofString "alse", by decide, by decide, by decide⟩
  · exact isWord

theorem Text.IsOverlooked.noKeyword (overlooked : w.IsOverlooked) : Keyword.ofText? w = none := by
  rcases overlooked with rfl | rfl | rfl | ⟨backslash, -⟩
  · decide
  · decide
  · decide
  · refine Option.eq_none_iff_forall_not_mem.mpr fun word isWord => ?_
    rw [Name.text_of_lookup isWord] at backslash
    exact word.noBackslash backslash

theorem Lexeme.ofName_eq_identifier_iff : Lexeme.ofName w = .identifier w ↔ Keyword.ofText? w = none ∧
    w ≠ Text.ofString "null" ∧ w ≠ Text.ofString "true" ∧ w ≠ Text.ofString "false" := by
  unfold Lexeme.ofName
  split
  next found => simp [found]
  next none =>
    have isTrue : booleanText true = Text.ofString "true" := rfl
    have isFalse : booleanText false = Text.ofString "false" := rfl
    rw [isTrue, isFalse]
    repeat' split
    all_goals simp_all

/-! ### Scanning a word -/

/-- The text with a blank behind it. -/
def Text.padded (w : Text) : Source :=
  Source.ofText (w ++ [0x20])

/-- Tokens of the padded text start with an identifier that is the text and takes all of it. -/
def Parser.Recognizes (p : Parser) (context : Context) (w : Text) : Prop :=
  ∃ token lineBreak, token.lexeme = .identifier w ∧ token.stop = w.length ∧
    (TokenStream.read (p.load w.padded 0 (some false) context [])).tokens.head? = some (token, lineBreak)

/-- The first of the tokens is the one that is looked at first. -/
theorem TokenStream.read_head?_iff {src : Source} {entry : Token × Option Bool} (loaded : p.source = some src) :
    (read p).tokens.head? = some entry ↔ ∃ q, Parse.peek p = .ok () q ∧ q.lookahead = some entry.1 ∧
      q.cursor.lineBreak = entry.2 := by
  unfold read
  cases run : Parse.peek p with
  | error fault q => simp
  | ok _ q =>
    obtain ⟨_, _, token, _, _, rfl⟩ := (Parse.peek_ok_iff loaded).mp run
    simp only
    rw [rest_head? rfl, Option.some.injEq]
    constructor
    · rintro rfl
      exact ⟨_, rfl, rfl, rfl⟩
    · rintro ⟨_, same, looked, sameBreak⟩
      cases same
      exact Prod.ext (Option.some.inj looked) sameBreak

theorem Name.isName_of_spells {parts : List NamePart} (spells : NamePart.Spells parts) :
    Name.IsName (NamePart.name parts) := by
  cases parts with
  | nil => exact spells.elim
  | cons first parts =>
    obtain ⟨starts, goesOn⟩ := spells
    refine ⟨first.value, parts.map NamePart.value, rfl, starts.value, ?_, fun backslash => ?_⟩
    · exact List.forall_mem_map.mpr fun part member => (goesOn part member).value
    · rcases List.mem_cons.mp backslash with isFirst | later
      · exact starts.other isFirst.symm
      · obtain ⟨part, member, isBackslash⟩ := List.mem_map.mp later
        exact (goesOn part member).other isBackslash

/-- A word without escapes, other than a keyword and the words of literals, is an identifier. -/
theorem Parser.recognizes_of_name (isName : Name.IsName w) (named : Lexeme.ofName w = .identifier w) :
    p.Recognizes context w := by
  have plainly : NamePart.Spells (w.map .plain) :=
    Name.spells_of_isName (by simpa using isName) (by simp [NamePart.Formed])
  obtain ⟨first, others, spelled, starts, -, -⟩ := isName
  have ahead : w.padded.ahead 0 = w ++ [0x20] := by
    simp [Text.padded, Source.ahead, Source.ofText]
  have head : w.padded.ahead 0 = first :: (others ++ [0x20]) := by
    rw [ahead, spelled, List.cons_append]
  let start : Cursor := { (p.load w.padded 0 (some false) context []).cursor with lineBreak := some false }
  have skips : Meets (Layout.skipAll w.padded) start (fun _ d => d = start) noFault :=
    Layout.skipAll_solid (.of_start head starts) rfl
  obtain ⟨_, _, layout, rfl⟩ := skips.exists_ok
  have stops : Text.Stops isIdentifierPart [0x20] := Text.stops_cons (by decide)
  have name : Name.token w.padded start = _ :=
    Name.token_reads plainly stops (by rw [NamePart.text_plain]; exact ahead)
  have scans : Meets (Lexer.token w.padded false (some start.lineStart)) start
      (fun token _ => token = NamePart.token (w.map .plain) start) noFault := by
    refine Lexer.token_of_start (Source.getElem?_head head) starts ?_
    rw [Lexer.nameToken]
    unfold Meets
    rw [bind_of_ok name]
    rfl
  obtain ⟨_, _, scanned, rfl⟩ := scans.exists_ok
  refine ⟨_, _, ?_, ?_, (TokenStream.read_head?_iff rfl).mpr
    ⟨_, (Parse.peek_ok_iff rfl).mpr ⟨_, _, _, layout, scanned, rfl⟩, rfl, rfl⟩⟩
  · exact (congrArg Lexeme.ofName (NamePart.name_plain w)).trans named
  · show 0 + (NamePart.text (w.map .plain)).length = w.length
    rw [NamePart.text_plain, Nat.zero_add]

/-- An identifier is a word without backslashes, and neither a keyword nor the word of a literal. -/
theorem Parser.Recognizes.name (recognizes : p.Recognizes context w) :
    Name.IsName w ∧ Lexeme.ofName w = .identifier w := by
  obtain ⟨token, lineBreak, isName, -, first⟩ := recognizes
  obtain ⟨q, peeked, looked, -⟩ := (TokenStream.read_head?_iff rfl).mp first
  obtain ⟨between, after, token', -, reads, rfl⟩ := (Parse.peek_ok_iff rfl).mp peeked
  obtain rfl : token' = token := Option.some.inj looked
  obtain ⟨parts, rest, spells, -, rfl⟩ := (Lexer.token_identifier _ _).of_ok reads w isName
  have named : Lexeme.ofName (NamePart.name parts) = .identifier w := isName
  obtain rfl := Name.name_of_ofName named
  exact ⟨Name.isName_of_spells spells, named⟩

/-- The test finds the identifiers that the scanner finds and, on top of them, the words of literals and the
words with a backslash in them. -/
theorem Text.isValidIdentifier_scanned (w : Text) (p : Parser) (context : Context) :
    (w.isValidIdentifier = true ↔ p.Recognizes context w ∨ w.IsOverlooked) ∧
      ¬ (p.Recognizes context w ∧ w.IsOverlooked) := by
  rw [isValidIdentifier_iff]
  refine ⟨⟨fun ⟨noKeyword, isWord⟩ => ?_, ?_⟩, fun ⟨recognized, overlooked⟩ => ?_⟩
  · by_cases backslash : 0x5C ∈ w
    · exact .inr (.inr (.inr (.inr ⟨backslash, isWord⟩)))
    · obtain ⟨first, others, spelled, starts, goesOn⟩ := isWord
      by_cases named : Lexeme.ofName w = .identifier w
      · exact .inl (Parser.recognizes_of_name ⟨first, others, spelled, starts, goesOn, backslash⟩ named)
      · simp only [Lexeme.ofName_eq_identifier_iff, noKeyword, true_and, not_and_or, not_not] at named
        exact .inr (named.imp_right fun other => other.imp_right .inl)
  · rintro (recognized | overlooked)
    · obtain ⟨⟨first, others, spelled, starts, goesOn, -⟩, named⟩ := recognized.name
      exact ⟨(Lexeme.ofName_eq_identifier_iff.mp named).1, first, others, spelled, starts, goesOn⟩
    · exact ⟨overlooked.noKeyword, overlooked.isWord⟩
  · obtain ⟨⟨_, _, _, _, _, noBackslash⟩, named⟩ := recognized.name
    obtain ⟨-, notNull, notTrue, notFalse⟩ := Lexeme.ofName_eq_identifier_iff.mp named
    rcases overlooked with isNull | isTrue | isFalse | ⟨backslash, -⟩
    · exact notNull isNull
    · exact notTrue isTrue
    · exact notFalse isFalse
    · exact noBackslash backslash

end EcmaScript
