import EcmaScript.Proofs.Tokenization

/-!
Octal escapes in strings. The spelling of a string shows whether it holds one: a backslash with an octal
digit behind it, unless the digit is a zero that no further octal digit follows. The scanner notes the
same while it resolves the escapes. Main statement: the note on the token of a string says what its
spelling shows.
-/

namespace EcmaScript

open Scan Character Text

/-- Whether a spelling holds an octal escape, other than a zero that no octal digit follows. -/
def Text.hasOctalEscape : Text → Bool
  | 0x5C :: ch :: rest =>
    isOctalDigit ch && (ch != 0x30 || rest.head?.any isOctalDigit) || hasOctalEscape rest
  | _ :: rest => hasOctalEscape rest
  | [] => false

example : (Text.ofString "'a\\0z\\\\1'").hasOctalEscape = false := by decide

example : (Text.ofString "'\\00'").hasOctalEscape = true := by decide

/-- The literal that a token stands for. -/
def Lexeme.literal? : Lexeme → Option Literal
  | .string value _ => some (.string value)
  | .numeric value => some (.number value)
  | .boolean value => some (.boolean value)
  | .null => some .null
  | _ => none

/-- The spelling has a first character, and if that is a double quote then the literal is a string. -/
def Literal.ShownBy (value : Literal) (raw : Text) : Prop :=
  ∃ first rest, raw = first :: rest ∧ (first = 0x22 → ∃ text, value = .string text)

/-- A token of a literal shows in its spelling what it is, and if it is a string it notes whether the
spelling holds an octal escape. -/
structure Token.Candid (token : Token) : Prop where
  shown : ∀ value, token.lexeme.literal? = some value → value.ShownBy (token.raw.getD [])
  octal : ∀ value octal, token.lexeme = .string value octal → (token.raw.getD []).hasOctalEscape = octal

theorem Token.Candid.of_other {token : Token} (other : token.lexeme.literal? = none) : token.Candid where
  shown _ found := by cases other.symm.trans found
  octal _ _ isString := by
    rw [isString] at other
    cases other

namespace Text

theorem hasOctalEscape_cons {ch : CodePoint} (plain : ch ≠ 0x5C) (rest : Text) :
    hasOctalEscape (ch :: rest) = hasOctalEscape rest := by
  rw [hasOctalEscape]
  intro _ _ same _
  exact plain same

theorem hasOctalEscape_escape (ch : CodePoint) (rest : Text) : hasOctalEscape (0x5C :: ch :: rest) =
      (isOctalDigit ch && (ch != 0x30 || rest.head?.any isOctalDigit) || hasOctalEscape rest) := by
  rw [hasOctalEscape]

end Text

variable {src : Source} {c : Cursor}

namespace Text

theorem hasOctalEscape_plain {plain : Text} (none : ∀ ch ∈ plain, ch ≠ 0x5C) (rest : Text) :
    hasOctalEscape (plain ++ rest) = hasOctalEscape rest := by
  induction plain with
  | nil => rfl
  | cons ch plain ih =>
    rw [List.cons_append, hasOctalEscape_cons (none ch (by simp)), ih fun ch member => none ch (by simp [member])]

/-- An escape that does not start with a digit is no octal one. -/
theorem hasOctalEscape_other {ch : CodePoint} {plain : Text} (noDigit : isOctalDigit ch = false)
    (none : ∀ ch ∈ plain, ch ≠ 0x5C) (rest : Text) :
    hasOctalEscape (0x5C :: ch :: (plain ++ rest)) = hasOctalEscape rest := by
  rw [hasOctalEscape_escape, noDigit, Bool.false_and, Bool.false_or, hasOctalEscape_plain none]

end Text

namespace StringElement

theorem hex_isPlain {digits : Text} (all : ∀ ch ∈ digits, isHexDigit ch = true) : ∀ ch ∈ digits, ch ≠ 0x5C := by
  rintro ch member rfl
  exact absurd (all _ member) (by decide)

/-- The spelling of an element shows whether it is an octal escape. -/
theorem hasOctalEscape_spelling {quote : CodePoint} {element : StringElement} {rest : Text}
    (valid : element.Valid quote) (ends : element.Ends rest) :
    (element.spelling ++ rest).hasOctalEscape = (element.isOctal || rest.hasOctalEscape) := by
  have letters : ∀ letter ∈ [0x75, 0x78], isOctalDigit letter = false := by decide
  have none {ch : CodePoint} (noDigit : isOctalDigit ch = false) :
      Text.hasOctalEscape (0x5C :: ch :: rest) = rest.hasOctalEscape := by
    rw [hasOctalEscape_escape, noDigit, Bool.false_and, Bool.false_or]
  cases element with
  | raw ch => exact hasOctalEscape_cons valid.2.1 rest
  | control letter denoted =>
    have noDigit : ∀ pair ∈ controls, isOctalDigit pair.1 = false := by decide
    exact none (noDigit _ valid)
  | hex letter digits =>
    have isLetter : letter ∈ [0x75, 0x78] := List.mem_map_of_mem (f := Prod.fst) valid.1
    exact hasOctalEscape_other (letters letter isLetter) (hex_isPlain valid.2) rest
  | braced letter digits =>
    obtain ⟨isLetter, -, all, -⟩ := valid
    have plain : ∀ ch ∈ 0x7B :: (digits ++ [0x7D]), ch ≠ 0x5C := by
      simpa [or_imp, forall_and] using hex_isPlain all
    exact hasOctalEscape_other (letters letter isLetter) plain rest
  | octal first more =>
    obtain ⟨isDigit, all, few⟩ := valid
    have plain : ∀ ch ∈ more, ch ≠ 0x5C := by
      rintro ch member rfl
      exact absurd (all _ member) (by decide)
    change Text.hasOctalEscape (0x5C :: first :: (more ++ rest)) = _
    rw [hasOctalEscape_escape, hasOctalEscape_plain plain, isDigit, Bool.true_and]
    congr 1
    cases more with
    | nil =>
      have stops : Text.Stops isOctalDigit rest := ends.resolve_left (by rw [room]; split <;> simp)
      cases rest with
      | nil =>
        simp [isOctal, bne]
        rfl
      | cons ch rest =>
        simp [isOctal, bne, stops ch rest rfl]
        rfl
    | cons second more => simp [isOctal, all second (by simp)]
  | other ch => exact none valid.2.1
  | continuation terminator =>
    have valid : terminator ∈ [[0x0A], [0x0D], [0x0D, 0x0A], [0x2028], [0x2029]] := valid
    simp only [List.mem_cons, List.not_mem_nil, or_false] at valid
    rcases valid with rfl | rfl | rfl | rfl | rfl <;>
      exact hasOctalEscape_other (by decide) (by decide) rest

theorem hasOctalEscape_text {quote : CodePoint} {elements : List StringElement} {rest : Text}
    (spelled : Spelled quote elements rest) :
    (text elements ++ rest).hasOctalEscape = (elements.any isOctal || rest.hasOctalEscape) := by
  induction elements with
  | nil => rfl
  | cons element elements ih =>
    obtain ⟨valid, ends, spelled⟩ := spelled
    rw [text_cons, List.append_assoc, hasOctalEscape_spelling valid ends, ih spelled, List.any_cons,
      Bool.or_assoc]

end StringElement

theorem StringLiteral.token_candid (lineStart : Option Nat) :
    Meets (token src lineStart) c (fun token _ => token.Candid) anyFault := by
  refine (token_returns lineStart).imp ?_
  rintro _ _ ⟨quote, elements, rest, isQuote, spelled, -, rfl, -⟩
  refine ⟨fun _ found => ⟨quote, _, rfl, fun _ => ⟨_, (Option.some.inj found).symm⟩⟩, ?_⟩
  rintro _ _ ⟨⟩
  have plain : quote ≠ 0x5C := by rcases isQuote with rfl | rfl <;> decide
  change Text.hasOctalEscape (quote :: (StringElement.text elements ++ [quote])) = _
  have last : StringElement.Spelled quote elements [quote] := spelled.congr rfl
  rw [hasOctalEscape_cons plain, StringElement.hasOctalEscape_text last, hasOctalEscape_cons plain,
    Text.hasOctalEscape, Bool.or_false]

/-! ### Other tokens -/

theorem Lexeme.ofName_ne_string (name value : Text) (octal : Bool) :
    Lexeme.ofName name ≠ .string value octal := by
  unfold Lexeme.ofName
  split
  · nofun
  · split
    · nofun
    · split
      · nofun
      · split
        · nofun
        · nofun

theorem Lexeme.inStrictCode_ne_string {lexeme : Lexeme} {value : Text} {octal : Bool}
    (other : lexeme ≠ .string value octal) : lexeme.inStrictCode ≠ .string value octal := by
  unfold Lexeme.inStrictCode
  split
  · split
    · nofun
    · nofun
  · exact other

theorem Template.token_candid : Meets (Template.token src) c (fun token _ => token.Candid) anyFault := by
  refine .past fun here d => .past fun first e => ?_
  refine .past fun _ _ => .past fun cooked f => .ite (fun _ => ?_) fun _ => ?_
  · exact .of_other rfl
  · exact .past fun _ g => Token.Candid.of_other rfl

theorem Mark.token_candid : Meets (Mark.token src) c (fun token _ => token.Candid) anyFault :=
  .past fun _ _ => .past fun _ _ => Token.Candid.of_other rfl

theorem NamePart.text_unquoted {parts : List NamePart} (spells : Spells parts) (value : Literal) :
    value.ShownBy (text parts) := by
  cases parts with
  | nil => exact spells.elim
  | cons first parts =>
    cases first with
    | plain ch =>
      refine ⟨ch, text parts, rfl, ?_⟩
      rintro rfl
      exact absurd spells.1.value (by decide)
    | escape digits => exact ⟨0x5C, 0x75 :: (digits ++ text parts), rfl, nofun⟩

theorem Numeral.spelling_unquoted {n : Numeral} (valid : n.Valid) (value : Literal) :
    value.ShownBy n.spelling := by
  have starts := starts_spelling valid []
  rw [List.append_nil] at starts
  cases spelled : n.spelling with
  | nil => exact absurd spelled (spelling_ne_nil valid)
  | cons first rest =>
    refine ⟨first, rest, rfl, ?_⟩
    rintro rfl
    rw [spelled] at starts
    cases starts with
    | digit isDigit => cases isDigit

/-- Whatever token is read, if it is a string then it notes what its spelling shows. -/
theorem Lexer.token_candid (strict : Bool) (lineStart : Option Nat) :
    Meets (Lexer.token src strict lineStart) c (fun token _ => token.Candid) anyFault := by
  refine token_cases (fun _ => .of_other rfl) (fun parts _ _ spells _ => ⟨fun value _ => ?_, fun value octal same => ?_⟩)
    Mark.token_candid (StringLiteral.token_candid lineStart)
    (fun _ _ _ valid _ => ⟨fun _ _ => Numeral.spelling_unquoted valid _, nofun⟩) fun _ _ _ => Template.token_candid
  · cases strict <;> exact NamePart.text_unquoted spells value
  have other := Lexeme.ofName_ne_string (NamePart.name parts) value octal
  cases strict with
  | true => exact absurd same (Lexeme.inStrictCode_ne_string other)
  | false => exact absurd same other

end EcmaScript
