import EcmaScript.Proofs.Readability

/-!
Printing and parsing. The text of a printed expression in parentheses is a program that spells its
pieces, the braces of the pieces match, and so the tokens of the program are the pieces. Main
statement: the program is read as one statement that holds the tree of the expression.
-/

namespace EcmaScript

open Parse Grammar

variable {src : Source}

/-! ### Braces -/

def Neutral (pieces : List Piece) : Prop :=
  ∀ depth rest, Legible depth rest → Legible depth (pieces ++ rest)

namespace Neutral

variable {piece : Piece} {pieces more : List Piece}

theorem nil : Neutral [] :=
  fun _ _ legible => legible

theorem append (first : Neutral pieces) (second : Neutral more) : Neutral (pieces ++ more) := by
  intro depth rest legible
  rw [List.append_assoc]
  exact first depth _ (second depth rest legible)

theorem cons (plain : ∀ depth, piece.depthAfter? depth = some depth) (neutral : Neutral pieces) :
    Neutral (piece :: pieces) :=
  fun depth rest legible => ⟨depth, plain depth, neutral depth rest legible⟩

theorem single (plain : ∀ depth, piece.depthAfter? depth = some depth) : Neutral [piece] :=
  cons plain nil

theorem inParens (neutral : Neutral pieces) : Neutral (inParens pieces) :=
  cons (fun _ => rfl) (neutral.append (single fun _ => rfl))

theorem inBraces (neutral : Neutral pieces) :
    Neutral (.mark .openBrace :: (pieces ++ [.mark .closeBrace])) := by
  intro depth rest legible
  rw [List.cons_append, List.append_assoc]
  exact ⟨depth + 1, rfl, neutral (depth + 1) _ ⟨depth, rfl, legible⟩⟩

theorem commaBefore {α : Type} (rest : List α) : Neutral (commaBefore rest) := by
  cases rest with
  | nil => exact nil
  | cons => exact single fun _ => rfl

end Neutral

mutual

theorem Target.neutral : ∀ target : Target, Neutral target.pieces
  | .name _ => .single fun _ => rfl
  | .dotted object _ => object.neutral.inParens.append (.cons (fun _ => rfl) (.single fun _ => rfl))
  | .computed object key =>
    object.neutral.inParens.append
      (.cons (fun _ => rfl) (key.neutral.inParens.append (.single fun _ => rfl)))

theorem Expression.neutral : ∀ e : Expression, Neutral e.pieces
  | .target target => target.neutral
  | .string _ | .hexadecimal _ | .boolean _ | .null | .this => .single fun _ => rfl
  | .call callee args => callee.neutral.inParens.append (Expression.list_neutral args).inParens
  | .new callee args =>
    .cons (fun _ => rfl) (callee.neutral.inParens.append (Expression.list_neutral args).inParens)
  | .unary operator argument =>
    .cons (by cases operator <;> exact fun _ => rfl) argument.neutral.inParens
  | .update operator true argument =>
    .cons (by cases operator <;> exact fun _ => rfl) argument.neutral.inParens
  | .update operator false argument =>
    argument.neutral.inParens.append (.single (by cases operator <;> exact fun _ => rfl))
  | .binary operator left right =>
    left.neutral.inParens.append (.cons (by cases operator <;> exact fun _ => rfl) right.neutral.inParens)
  | .conditional test yes no =>
    test.neutral.inParens.append (.cons (fun _ => rfl)
      (yes.neutral.inParens.append (.cons (fun _ => rfl) no.neutral.inParens)))
  | .assignment operator left right =>
    left.neutral.inParens.append (.cons (by cases operator <;> exact fun _ => rfl) right.neutral.inParens)
  | .sequence first second rest =>
    first.neutral.inParens.append (.cons (fun _ => rfl)
      (second.neutral.inParens.append (Expression.more_neutral rest)))
  | .array elements =>
    .cons (fun _ => rfl) ((Expression.elements_neutral elements).append (.single fun _ => rfl))
  | .object properties => (Expression.properties_neutral properties).inBraces

theorem Expression.list_neutral : ∀ es : List Expression, Neutral (Expression.listPieces es)
  | [] => .nil
  | first :: rest => first.neutral.inParens.append (Expression.more_neutral rest)

theorem Expression.more_neutral : ∀ es : List Expression, Neutral (Expression.morePieces es)
  | [] => .nil
  | next :: rest =>
    .cons (fun _ => rfl) (next.neutral.inParens.append (Expression.more_neutral rest))

theorem Expression.elements_neutral :
    ∀ elements : List (Option Expression), Neutral (Expression.elementPieces elements)
  | [] => .nil
  | none :: rest => .cons (fun _ => rfl) (Expression.elements_neutral rest)
  | some first :: rest =>
    first.neutral.inParens.append ((Neutral.commaBefore rest).append (Expression.elements_neutral rest))

theorem Expression.properties_neutral :
    ∀ properties : List (Word × Expression), Neutral (Expression.propertyPieces properties)
  | [] => .nil
  | (_, value) :: rest =>
    .cons (fun _ => rfl) (.cons (fun _ => rfl) (value.neutral.inParens.append
      ((Neutral.commaBefore rest).append (Expression.properties_neutral rest))))

end


/-! ### The text of an expression -/

/-- Pieces that follow others, up to the closing parenthesis and the end of the program. -/
theorem Spells.following (pieces : List Piece) : Spells (pieces ++ [.mark .closeParen, .mark .semicolon])
      ((pieces.flatMap fun next => 0x20 :: next.text) ++ 0x29 :: Parser.sentinel) := by
  induction pieces with
  | nil =>
    have close : (Piece.mark .closeParen).Delimited Parser.sentinel := .inr ⟨0x20, _, rfl, rfl⟩
    exact .next (.inl rfl) close .last
  | cons piece pieces ih =>
    have delimited : piece.Delimited
        ((pieces.flatMap fun next => 0x20 :: next.text) ++ 0x29 :: Parser.sentinel) := by
      cases pieces <;> exact .inr ⟨_, _, rfl, rfl⟩
    have spells := Spells.next (.inr rfl) delimited ih
    simpa using spells

theorem Expression.spells (e : Expression) : Spells (inParens e.pieces ++ [.mark .semicolon])
      ((Text.ofString "(" ++ e.print ++ Text.ofString ")") ++ Parser.sentinel) := by
  obtain ⟨piece, pieces, starts⟩ := List.exists_cons_of_ne_nil e.pieces_ne_nil
  have opening : Text.ofString "(" = (Piece.mark .openParen).text := rfl
  have closing : Text.ofString ")" = [0x29] := by decide
  have delimited : piece.Delimited
      ((pieces.flatMap fun next => 0x20 :: next.text) ++ 0x29 :: Parser.sentinel) := by
    cases pieces <;> exact .inr ⟨_, _, rfl, rfl⟩
  have inner := Spells.next (.inl rfl) delimited (.following pieces)
  have spells := Spells.next (.inl rfl) (.inl rfl) inner
  rw [inParens_append, Expression.print, starts, spell_cons, opening, closing]
  simpa using spells

/-! ### Programs -/

theorem Reads.consumeSemicolon {rest : List Piece} {f : Bool} {c : Context} :
    Reads src (.mark .semicolon :: rest) f consumeSemicolon ⟨⟩ rest f c :=
  .source (.startMark fun _ _ => .ite .drop (.ifMark rfl .drop))

theorem Reads.noDirectives {reader : Reader} {pieces : List Piece} {f : Bool} {c : Context}
    (notEnd : nextLexeme pieces ≠ .endOfSource)
    (notString : ∀ value octal, nextLexeme pieces ≠ .string value octal) :
    Reads src pieces f (directives reader) [] pieces f c := by
  refine (Loops.leave (.ifInside notEnd (.lookahead fun token isFirst => ?_))).repeated
  rw [isFirst.lexeme_eq]
  split
  next value octal isString => exact absurd isString (notString value octal)
  next => exact .pure

theorem Reads.listItem {e : Expression} {d : Nat} {f : Bool} (readable : Readable src e)
    (enough : e.pieces.length ≤ d) :
    Reads src (inParens e.pieces ++ [.mark .semicolon]) f (listItem (readerOf d))
      (.expressionStatement e.toNode) [] true := by
  -- Neither the rule for items nor the one for statements has a case for the parenthesis, so the
  -- statement is an expression.
  refine .lookahead fun token isFirst => ?_
  rw [isFirst.1, Piece.lexeme]
  refine .lookahead fun token isFirst => ?_
  rw [isFirst.1, Piece.lexeme]
  refine .bind (.change fun _ stands => stands.apart (g := true) .rfl rfl
    stands.settled fun _ => rfl) ?_
  refine .bind (Parses.expressionFrom (readable.operand enough).ofUnary rfl (by rintro ⟨⟩)) ?_
  exact .bind .consumeSemicolon .pure

theorem Reads.scriptBody {e : Expression} {d : Nat} {f : Bool} (readable : Readable src e)
    (enough : e.pieces.length ≤ d) :
    Reads src (inParens e.pieces ++ [.mark .semicolon]) f (scriptBody (readerOf (d + 1)))
      [.expressionStatement e.toNode] [] true := by
  refine .bind (.noDirectives (by nofun) (by nofun)) ?_
  refine (Loops.again ?_ ?_ (Loops.leave (.unlessInside .pure))).repeated
  · exact .ifInside (by nofun) (.bind (.listItem readable enough) .pure)
  · exact Nat.zero_lt_succ _

/-- A program whose pieces are read as a script. -/
theorem Spells.script_meets {pieces : List Piece} {code : Text} {body : List Node} (p : Parser)
    (spells : Spells (pieces ++ [.mark .semicolon]) (code ++ Parser.sentinel)) (neutral : Neutral pieces)
    (late : ∀ piece ∈ (pieces ++ [Piece.mark .semicolon]).head?, piece.text.head? ≠ some 0x2D)
    (reads : ∀ d, pieces.length < d → Reads (Source.ofText (code ++ Parser.sentinel))
      (pieces ++ [.mark .semicolon]) false (scriptBody (readerOf (d + 1))) body [] false) :
    Meets (deep program) (p.begin code) (fun node _ => node = .program body) noFault := by
  have ahead : (Source.ofText (code ++ Parser.sentinel)).ahead (p.begin code).cursor.index =
      code ++ Parser.sentinel := by
    simp [Source.ahead, Source.ofText, Parser.begin, Parser.load]
  have short : (pieces ++ [Piece.mark .semicolon]).length ≤
      (Source.ofText (code ++ Parser.sentinel)).size := by
    simpa [Source.ofText] using spells.length_le
  have supplies : Supplies (Source.ofText (code ++ Parser.sentinel)) (pieces ++ [Piece.mark .semicolon])
      (p.begin code).cursor :=
    .of_spells spells ahead rfl (neutral 0 _ ⟨0, rfl, trivial⟩) fun piece first isMinus =>
      absurd isMinus (late piece first)
  refine .get_bind ?_
  refine Meets.bind (peek_stands (.of_begin p code) rfl rfl rfl supplies short) fun _ q stands => ?_
  -- The readers are as deep as the source is long, and each piece takes a character at least.
  have enough : pieces.length < (Source.ofText (code ++ Parser.sentinel)).size + 7 := by
    rw [List.length_append] at short
    omega
  refine Meets.bind (reads _ enough q stands) fun _ _ met => ?_
  rw [met.1]
  rfl

theorem Spells.program_meets {e : Expression} {code : Text} (p : Parser)
    (spells : Spells (inParens e.pieces ++ [.mark .semicolon]) (code ++ Parser.sentinel)) :
    Meets (deep program) (p.begin code)
      (fun node _ => node = .program [.expressionStatement e.toNode]) noFault := by
  refine spells.script_meets p e.neutral.inParens (by rintro _ ⟨⟩; nofun) fun d enough => ?_
  rw [length_inParens] at enough
  exact (Reads.scriptBody e.readable (by omega)).forget

/-- Every expression that is printed and put in parentheses is read back as it was. -/
theorem parse_print (settings : Settings) (e : Expression) :
    parse settings (Text.ofString "(" ++ e.print ++ Text.ofString ")") =
      .ok (.program [.expressionStatement e.toNode]) := by
  have met := e.spells.program_meets { settings }
  unfold Meets at met
  unfold parse Parser.program
  split at met
  next node q run =>
    rw [run, met]
  next => exact met.elim

end EcmaScript
