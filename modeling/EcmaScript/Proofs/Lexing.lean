import EcmaScript.Proofs.Gaps
import EcmaScript.Proofs.Numerals
import EcmaScript.Proofs.Patterns
import EcmaScript.Proofs.Strings

/-!
What a token is to the parser: where it starts and stops, what it does to the open braces, and a few
facts about its first character. Each reader of a kind of token moves the cursor forward and inside the
source, and fails only for an excused reason.
-/

namespace EcmaScript

open Scan Character List Source StringElement

variable {src : Source} {c : Cursor}

/-- How a token changes the number of open braces. -/
def Lexeme.weight : Lexeme → Int
  | .punctuator .openBrace => 1
  | .punctuator .closeBrace => -1
  | .template _ _ true false => 1
  | .template _ _ false true => -1
  | _ => 0

/-- A token that opens a brace or closes one, or that stands between two substitutions of a template. -/
inductive Bracket where
  | opener (brace : Brace)
  | closer (brace : Brace)
  | middle
  deriving DecidableEq, Repr

namespace Bracket

/-- The open braces after a bracket, the innermost one last. A bracket that has to close a brace or to stand in
a substitution fits only there. -/
def after? : Bracket → List Brace → Option (List Brace)
  | opener brace, braces => some (braces ++ [brace])
  | closer brace, braces => if braces.getLast? = some brace then some braces.dropLast else none
  | middle, braces => if braces.getLast? = some .substitution then some braces else none

def weight : Bracket → Int
  | opener _ => 1
  | closer _ => -1
  | middle => 0

theorem length_of_after? {bracket : Bracket} {before after : List Brace}
    (fits : bracket.after? before = some after) :
    (after.length : Int) = before.length + bracket.weight := by
  cases bracket with
  | opener brace =>
    cases fits
    simp [weight]
  | closer brace =>
    obtain ⟨isLast, closed⟩ := Option.ite_none_right_eq_some.mp fits
    cases closed
    have nonempty : 0 < before.length := length_pos_of_mem (mem_of_getLast? isLast)
    rw [length_dropLast, weight]
    omega
  | middle =>
    obtain ⟨-, same⟩ := Option.ite_none_right_eq_some.mp fits
    cases same
    simp [weight]

end Bracket

variable {lexeme : Lexeme}

namespace Lexeme

def bracket? : Lexeme → Option Bracket
  | .punctuator .openBrace => some (.opener .block)
  | .punctuator .closeBrace => some (.closer .block)
  | .template _ _ true false => some (.opener .substitution)
  | .template _ _ false false => some .middle
  | .template _ _ false true => some (.closer .substitution)
  | _ => none

/-- The open braces after a token. -/
def turn? (lexeme : Lexeme) (braces : List Brace) : Option (List Brace) :=
  match lexeme.bracket? with
  | none => some braces
  | some bracket => bracket.after? braces

theorem weight_eq (lexeme : Lexeme) : lexeme.weight = (lexeme.bracket?.map Bracket.weight).getD 0 := by
  cases lexeme with
  | punctuator mark => cases mark <;> rfl
  | template cooked raw head tail => cases head <;> cases tail <;> rfl
  | _ => rfl

theorem length_of_turn? {before after : List Brace} (turns : lexeme.turn? before = some after) :
    (after.length : Int) = before.length + lexeme.weight := by
  rw [weight_eq]
  unfold turn? at turns
  split at turns
  next isNone =>
    cases turns
    simp [isNone]
  next bracket isBracket =>
    rw [isBracket]
    exact Bracket.length_of_after? turns

end Lexeme

/-- `token` is what the cursor passed on its way from `c` to `d`. -/
structure Scanned (src : Source) (c : Cursor) (token : Token) (d : Cursor) : Prop where
  start : token.start = c.index
  stop : token.stop = d.index
  bound : d.index ≤ src.size
  ended : token.lexeme = .endOfSource → c.index = src.size ∧ d.index = src.size
  moved : token.lexeme ≠ .endOfSource → c.index < d.index
  braces : ∃ before after, c.braces = some before ∧ d.braces = some after ∧
    token.lexeme.turn? before = some after
  mark : ∀ mark, token.lexeme = .punctuator mark →
    src[c.index]? = mark.text.head? ∧ d.index = c.index + mark.text.length
  semicolon : src[c.index]? = some 0x3B → token.lexeme.weight = 0
  keyword : ∀ word, token.lexeme = .keyword word → ∀ length, Sealed src length → d.index ≤ length

variable {d : Cursor}

theorem Scanned.slash {token : Token} (scanned : Scanned src c token d)
    (isSlash : token.lexeme = .punctuator .slash ∨ token.lexeme = .punctuator .slashAssign) :
    src[c.index]? = some 0x2F := by
  rcases isSlash with isMark | isMark
  · exact (scanned.mark _ isMark).1
  · exact (scanned.mark _ isMark).1

/-- A word or literal: neither a mark nor a piece of a template, nor the end. -/
def Lexeme.IsPlain : Lexeme → Prop
  | .endOfSource | .punctuator _ | .template .. => False
  | _ => True

theorem Lexeme.IsPlain.weight_eq (plain : lexeme.IsPlain) : lexeme.weight = 0 := by
  cases lexeme
  case endOfSource | punctuator | template => exact plain.elim
  all_goals rfl

theorem Lexeme.IsPlain.turn?_eq (plain : lexeme.IsPlain) (braces : List Brace) :
    lexeme.turn? braces = some braces := by
  cases lexeme
  case endOfSource | punctuator | template => exact plain.elim
  all_goals rfl

variable {braces : List Brace}

theorem Scanned.of_plain {token : Token}
    (plain : token.lexeme.IsPlain) (opened : c.braces = some braces) (start : token.start = c.index)
    (stop : token.stop = d.index) (reach : c.Reaches src d) (moved : c.index < d.index)
    (keyword : ∀ word, token.lexeme = .keyword word →
      ∀ length, Sealed src length → d.index ≤ length) : Scanned src c token d := by
  refine ⟨start, stop, reach.bound, fun isEnd => ?_, fun _ => moved,
    ⟨braces, braces, opened, reach.braces.trans opened, plain.turn?_eq braces⟩, fun mark isMark => ?_,
    fun _ => plain.weight_eq, keyword⟩
  · exact (isEnd ▸ plain).elim
  · exact (isMark ▸ plain).elim

theorem Lexeme.ofName_plain (name : Text) : (Lexeme.ofName name).IsPlain := by
  unfold Lexeme.ofName
  split
  · trivial
  · split
    · trivial
    · split
      · trivial
      · split
        · trivial
        · trivial

theorem Lexeme.inStrictCode_plain (plain : lexeme.IsPlain) : lexeme.inStrictCode.IsPlain := by
  unfold Lexeme.inStrictCode
  split
  · split
    · trivial
    · trivial
  · exact plain

/-! ### Moving over literals -/

/-- From `c` to `d` only the index moves, over characters of one line. -/
def Cursor.Along (src : Source) (c d : Cursor) : Prop :=
  ∃ j, Layout.InLine src c.index j ∧ d = { c with index := j }

/-- From `c` to `d` the index moves over characters within a line and over line breaks, which are counted. -/
inductive Cursor.Passes (src : Source) (c : Cursor) : Cursor → Prop
  | refl : Passes src c c
  | step {d : Cursor} {ch : CodePoint} (passes : Passes src c d) (found : src[d.index]? = some ch)
    (inLine : isLineTerminator ch = false) : Passes src c { d with index := d.index + 1 }
  | lineBreak {d : Cursor} {j : Nat} (passes : Passes src c d) (ends : LineBreak src d.index j) :
    Passes src c { d with index := j, lineNumber := d.lineNumber + 1, lineStart := j }

/-- A scanner that has started at `c` fails behind what it has passed, on the same line. It may be only
under some condition that its fault is excused. -/
def Cursor.Fails (src : Source) (excuse : Prop) (c : Cursor) (fault : ScanFault) (d : Cursor) : Prop :=
  (excuse → Excused src fault d) ∧
    (fault = .pastEnd ∨ ∃ e j, c.Passes src e ∧ e.index ≤ j ∧ d = { e with index := j })

section

variable {d e : Cursor} {ch : CodePoint} {excuse : Prop} {fault : ScanFault} {j : Nat}

namespace Cursor.Along

theorem refl (c : Cursor) : c.Along src c :=
  ⟨c.index, .refl _, rfl⟩

theorem trans (first : c.Along src d) (second : d.Along src e) : c.Along src e := by
  obtain ⟨j, before, rfl⟩ := first
  obtain ⟨k, after, rfl⟩ := second
  refine ⟨k, ⟨Nat.le_trans before.1 after.1, fun i behind ahead => ?_⟩, rfl⟩
  by_cases early : i < j
  · exact before.2 i behind early
  · exact after.2 i (Nat.le_of_not_lt early) ahead

theorem step (found : src[c.index]? = some ch) (inLine : isLineTerminator ch = false) :
    c.Along src { c with index := c.index + 1 } :=
  ⟨_, (Layout.InLine.refl _).succ found inLine, rfl⟩

end Cursor.Along

namespace Cursor.Passes

theorem along (passes : c.Passes src d) (along : d.Along src e) : c.Passes src e := by
  obtain ⟨j, inLine, rfl⟩ := along
  exact inLine.induct (fun k => c.Passes src { d with index := k }) passes
    fun _ _ passes found inLine => passes.step found inLine

theorem trans (first : c.Passes src d) (second : d.Passes src e) : c.Passes src e := by
  induction second with
  | refl => exact first
  | step _ found inLine ih => exact ih.step found inLine
  | lineBreak _ ends ih => exact ih.lineBreak ends

theorem reaches (passes : c.Passes src d) (bound : c.index ≤ src.size) : c.Reaches src d := by
  induction passes with
  | refl => exact .refl bound
  | step passes found inLine ih => exact ih.skip 1 rfl (Array.getElem?_eq_some_iff.mp found).1 rfl
  | lineBreak passes ends ih => exact ih.trans ⟨Nat.le_of_lt ends.lt, ends.le_size, rfl⟩

theorem fails (passes : c.Passes src d) (behind : d.index ≤ j)
    (excused : Excused src fault { d with index := j }) : c.Fails src excuse fault { d with index := j } :=
  ⟨fun _ => excused, .inr ⟨d, j, passes, behind, rfl⟩⟩

theorem fails_here (passes : c.Passes src d) (excused : Excused src fault d) : c.Fails src excuse fault d :=
  passes.fails (Nat.le_refl _) excused

end Cursor.Passes

theorem Cursor.Along.passes (along : c.Along src d) : c.Passes src d :=
  Cursor.Passes.refl.along along

theorem current_passes {α : Type} {f : CodePoint → ScanM α} {after : α → Cursor → Prop}
    (room : Roomy src d.index)
    (reads : ∀ ch, src[d.index]? = some ch → Meets (f ch) d after (c.Fails src excuse)) :
    Meets (current src >>= f) d after (c.Fails src excuse) :=
  ahead_or room (fun missing isBrace => nomatch missing.symm.trans isBrace)
    (fun missing noBrace => ⟨fun _ => ⟨missing, noBrace⟩, .inl rfl⟩) reads

theorem next_passes {α : Type} {f : CodePoint → ScanM α} {after : α → Cursor → Prop}
    (room : Roomy src d.index) (reads : ∀ ch, src[d.index]? = some ch →
      Meets (f ch) { d with index := d.index + 1 } after (c.Fails src excuse)) :
    Meets (next src >>= f) d after (c.Fails src excuse) :=
  .into (current_passes room reads)

/-- A class of characters without line terminators. -/
theorem inLine_of_member {member : CodePoint → Bool}
    (none : ∀ ch ∈ lineTerminators, member ch = false) (belongs : member ch = true) :
    isLineTerminator ch = false := by
  cases ends : isLineTerminator ch with
  | false => rfl
  | true =>
    have isEnd : ch ∈ lineTerminators := by simpa [isLineTerminator] using ends
    rw [none ch isEnd] at belongs
    cases belongs

theorem Cursor.Took.along {text rest : Text} (took : c.Took src text rest d)
    (inLine : ∀ ch ∈ text, isLineTerminator ch = false) : c.Along src d := by
  refine ⟨d.index, ⟨?_, fun k after before => ?_⟩, ?_⟩
  · rw [took.index_eq]
    exact Nat.le_add_right _ _
  · rw [took.index_eq] at before
    have offset : k - c.index < text.length := by omega
    have found := src.getElem?_ahead c.index (k - c.index)
    rw [Nat.add_sub_cancel' after, took.found, List.getElem?_append_left offset,
      List.getElem?_eq_getElem offset] at found
    exact ⟨_, found, inLine _ (getElem_mem offset)⟩
  · rw [took.cursor]

theorem isIdentifierPart_inLine : ∀ ch ∈ lineTerminators, isIdentifierPart ch = false := by
  decide +kernel

theorem isHexDigit_inLine : ∀ ch ∈ lineTerminators, isHexDigit ch = false := by
  decide

/-! ### Escapes and names -/

namespace Escape

theorem hexDigits_along {fails : ScanFault → Cursor → Prop} (count value : Nat) :
    Meets (hexDigits src count value) c (fun _ d => c.Along src d) fails := by
  induction count generalizing c value with
  | zero => exact .refl c
  | succ count ih =>
    refine .get_bind ?_
    split
    next => exact .refl c
    next ch found =>
      split
      next isHex =>
        refine .modify_bind ?_
        refine (ih _).imp fun _ _ rest => ?_
        exact (Cursor.Along.step found (inLine_of_member isHexDigit_inLine isHex)).trans rest
      next => exact .refl c

theorem hex_along {fails : ScanFault → Cursor → Prop} (count : Nat) :
    Meets (hex src count) c (fun _ d => c.Along src d) fails :=
  hexDigits_along count 0

theorem bracedDigits_along {fails : ScanFault → Cursor → Prop} (bound : c.index ≤ src.size) :
    Meets (bracedDigits src) c (fun value d => (value.isSome → c.Along src d) ∧
      ∃ j, c.index ≤ j ∧ d = { c with index := j }) fails := by
  obtain ⟨digits, rest, spelled, all, stops⟩ := Text.exists_span isHexDigit (src.ahead c.index)
  have start : c.Took src [] (digits ++ rest) c := spelled ▸ .start
  refine bracedDigits_meets bound all stops start fun d took =>
    ⟨fun isNumber => took.along fun ch member => ?_, _, Nat.le_add_right .., took.cursor⟩
  obtain ⟨more, rfl⟩ : ∃ more, rest = 0x7D :: more := by
    split at isNumber
    next closes => exact List.head?_eq_some_iff.mp closes
    next => cases isNumber
  obtain isDigit | rfl : ch ∈ digits ∨ ch = 0x7D := by simpa using member
  · exact inLine_of_member isHexDigit_inLine (all ch isDigit)
  · rfl

theorem braced_passes (passes : c.Passes src d) (bound : d.index ≤ src.size) (room : Roomy src d.index) :
    Meets (braced src) d (fun _ e => c.Passes src e ∧ d.index ≤ e.index) (c.Fails src excuse) := by
  refine current_passes room fun ch found => .ite (fun _ => passes.fails_here trivial) fun _ => ?_
  refine (bracedDigits_along bound).bind ?_
  rintro value _ ⟨along, j, behind, rfl⟩
  split
  · exact .ite (fun _ => ⟨passes.along (along rfl), behind⟩) fun _ => passes.fails behind trivial
  · exact passes.fails behind trivial

end Escape

end

variable {ch : CodePoint}

namespace Name

theorem keyword_head (word : Keyword) : ∃ ch, word.text.head? = some ch ∧ ch ∉ Parser.sentinel := by
  cases word <;> exact ⟨_, rfl, by decide⟩

variable {word : Keyword}

theorem text_of_lookup {words : List Keyword} {name : Text}
    (found : (words.map fun word => (word.text, word)).lookup name = some word) : name = word.text := by
  induction words with
  | nil => cases found
  | cons first rest ih =>
    rw [map_cons, lookup_cons] at found
    split at found
    next same =>
      cases found
      exact eq_of_beq same
    next => exact ih found

theorem text_of_ofName {name : Text} (found : Lexeme.ofName name = .keyword word) : name = word.text := by
  unfold Lexeme.ofName at found
  split at found
  next isWord =>
    cases found
    exact text_of_lookup isWord
  next =>
    repeat' split at found
    all_goals cases found

theorem name_of_ofName {name other : Text} (found : Lexeme.ofName name = .identifier other) :
    name = other := by
  unfold Lexeme.ofName at found
  repeat' split at found
  all_goals cases found
  rfl

theorem text_of_inStrictCode {name : Text}
    (found : (Lexeme.ofName name).inStrictCode = .keyword word) : name = word.text := by
  unfold Lexeme.inStrictCode at found
  split at found
  next other isName =>
    obtain rfl := name_of_ofName isName
    split at found
    next isWord =>
      cases found
      exact text_of_lookup isWord
    next => cases found
  next => exact text_of_ofName found

theorem keyword_stops {parts : List NamePart} {rest : Text} {length : Nat}
    (ends : Sealed src length) (spells : NamePart.Spells parts)
    (took : c.Took src (NamePart.text parts) rest d) (isWord : NamePart.name parts = word.text) :
    d.index ≤ length := by
  have inCode : c.index < length := by
    obtain ⟨ch, head, foreign⟩ := keyword_head word
    cases parts with
    | nil => exact spells.elim
    | cons first parts =>
      cases first with
      | plain ch' =>
        obtain rfl : ch' = ch := Option.some.inj ((congrArg List.head? isWord).trans head)
        exact ends.inCode (getElem?_head took.found) foreign
      | escape digits => exact ends.inCode (getElem?_head took.found) (by decide)
  refine took.early ends (fun blank => ?_) (Nat.le_of_lt inCode)
  exact absurd (named_of_spells spells _ blank) (by decide)

theorem not_sealed {text : Text} {index : Nat} (found : src.ahead index = text)
    (isLast : text.getLast? = some ch) (other : ch ≠ 0x44) (length : Nat) : ¬ Sealed src length := by
  intro ends
  have size := src.length_ahead index
  rw [List.getLast?_eq_getElem?] at isLast
  have here := Source.getElem?_append (show _ = text ++ [] by simpa using found) isLast
  have last : src[length + 9]? = some 0x44 := ends.tail 9 (by decide)
  have ended := ends.size_eq
  have nonempty : 0 < text.length := length_pos_of_mem (mem_of_getElem? isLast)
  rw [found] at size
  rw [show index + (text.length - 1) = length + 9 by omega, last] at here
  exact other (Option.some.inj here).symm

theorem Broken.excused {text : Text} {fault : ScanFault} (broken : Broken src c text fault d) :
    Excused src fault d := by
  obtain ⟨extra, left, took, -, rfl | ⟨rfl, rfl, isLast⟩⟩ := broken
  · trivial
  · exact ⟨not_sealed (by simpa using took.found) isLast (by decide), by rw [took.lookup]; exact nofun⟩

end Name

/-! ### Numbers -/

namespace Numeric

theorem token_meets (opened : c.braces = some braces) (starts : Numeral.Starts (src.ahead c.index)) :
    Meets (token src) c (fun token e => Scanned src c token e) (Excused src) := by
  obtain ⟨n, rest, at_n, met⟩ := Numeral.token_decides starts
  obtain ⟨ch, more, spelled⟩ := exists_cons_of_ne_nil (Numeral.spelling_ne_nil at_n.valid)
  have bound : c.index ≤ src.size := by
    have found := at_n.found
    rw [spelled, cons_append] at found
    exact Nat.le_of_lt (lt_size_of_ahead found)
  refine met.mono ?_ fun fault d refused => ?_
  · rintro token d ⟨rfl, took, -⟩
    have moved : c.index < d.index := by
      rw [took.index_eq, spelled, length_cons]
      omega
    exact .of_plain trivial opened rfl took.index_eq.symm (took.reaches bound) moved nofun
  · rcases refused.reason with ⟨rfl, -⟩ | ⟨rfl, short⟩
    · trivial
    · refine ⟨fun length ends => short (Numeral.looks_of_blank (at_n.blank ends)), ?_⟩
      obtain ⟨extra, left, took, -, isNil⟩ := refused.place
      have none := src.getElem?_ahead d.index 0
      rw [took.ahead, isNil rfl, Nat.add_zero] at none
      rw [none]
      exact nofun

end Numeric

/-! ### Strings and templates -/

namespace StringElement

variable {d : Cursor} {quote : CodePoint} {rest : Text} {element : StringElement}

theorem inLine_spelling (valid : element.Valid quote) (inLine : element.isContinuation = false) :
    ∀ ch ∈ element.spelling, isLineTerminator ch = false := by
  have digits {digits : Text} {member : CodePoint → Bool} (none : ∀ ch ∈ lineTerminators, member ch = false)
      (all : ∀ ch ∈ digits, member ch = true) : ∀ ch ∈ digits, isLineTerminator ch = false :=
    fun ch isDigit => inLine_of_member none (all ch isDigit)
  have letters : ∀ letter ∈ [0x75, 0x78] ++ controls.map Prod.fst, isLineTerminator letter = false := by decide
  have escape {more : Text} (all : ∀ ch ∈ more, isLineTerminator ch = false) :
      ∀ ch ∈ 0x5C :: more, isLineTerminator ch = false := forall_mem_cons.mpr ⟨rfl, all⟩
  cases element with
  | raw ch => exact forall_mem_singleton.mpr valid.2.2
  | control letter denoted =>
    refine escape (forall_mem_singleton.mpr (letters _ (mem_append_right _ ?_)))
    exact mem_map_of_mem (f := Prod.fst) valid
  | hex letter hex =>
    obtain ⟨sized, all⟩ := valid
    have isLetter : letter ∈ [0x75, 0x78] := mem_map_of_mem (f := Prod.fst) sized
    exact escape (forall_mem_cons.mpr ⟨letters _ (mem_append_left _ isLetter), digits isHexDigit_inLine all⟩)
  | braced letter hex =>
    obtain ⟨isLetter, -, all, -⟩ := valid
    refine escape (forall_mem_cons.mpr ⟨letters _ (mem_append_left _ isLetter), forall_mem_cons.mpr ⟨rfl, ?_⟩⟩)
    refine forall_mem_append.mpr ⟨digits isHexDigit_inLine all, forall_mem_singleton.mpr rfl⟩
  | octal first more =>
    obtain ⟨isDigit, all, -⟩ := valid
    exact escape (digits (by decide) (forall_mem_cons.mpr ⟨isDigit, all⟩))
  | other ch => exact escape (forall_mem_singleton.mpr valid.2.2.1)
  | continuation terminator => cases inLine

theorem passes_pass (valid : element.Valid quote) (ends : element.Ends rest)
    (found : src.ahead d.index = element.spelling ++ rest) (passes : c.Passes src d) :
    c.Passes src (pass d element) := by
  cases inLine : element.isContinuation with
  | false =>
    have took : d.Took src element.spelling rest { d with index := d.index + element.spelling.length } :=
      ⟨rfl, found⟩
    simpa [pass, inLine] using passes.along (took.along (inLine_spelling valid inLine))
  | true =>
    cases element
    case continuation terminator =>
      have first := passes.step (getElem?_head found) rfl
      have ahead := ahead_cons found
      have isBreak : LineBreak src (d.index + 1) (d.index + 1 + terminator.length) := by
        have valid : terminator ∈ [[0x0A], [0x0D], [0x0D, 0x0A], [0x2028], [0x2029]] := valid
        simp only [mem_cons, not_mem_nil, or_false] at valid
        rcases valid with rfl | rfl | rfl | rfl | rfl
        · exact .single (getElem?_head ahead) rfl (by simp)
        · obtain ⟨ch, more, rfl, noFeed⟩ := ends
          refine .single (getElem?_head ahead) rfl fun _ isFeed => noFeed ?_
          exact Option.some.inj ((getElem?_head (ahead_cons ahead)).symm.trans isFeed)
        · exact .pair (getElem?_head ahead) (getElem?_head (ahead_cons ahead))
        · exact .single (getElem?_head ahead) rfl (by simp)
        · exact .single (getElem?_head ahead) rfl (by simp)
      have further := first.lineBreak isBreak
      simpa [pass, isContinuation, spelling, Nat.add_assoc, Nat.add_comm 1] using further
    all_goals cases inLine

theorem passes_foldl {elements : List StringElement} (spelled : Spelled quote elements rest)
    (found : src.ahead d.index = text elements ++ rest) (passes : c.Passes src d) :
    c.Passes src (elements.foldl pass d) := by
  induction elements generalizing d with
  | nil => exact passes
  | cons element elements ih =>
    obtain ⟨valid, ends, spelled⟩ := spelled
    rw [text_cons, append_assoc] at found
    refine ih spelled ?_ (passes_pass valid ends found passes)
    rw [pass_index, ahead_append found]

end StringElement

variable {excuse : Prop}

namespace StringLiteral

theorem continuation_passes (passes : c.Passes src d)
    (found : src[d.index]? = some ch) (ends : isLineTerminator ch = true) :
    Meets (continuation src ch) { d with index := d.index + 1 }
      (fun _ e => c.Passes src e ∧ d.index < e.index) (c.Fails src excuse) := by
  refine .modify_bind (.into ?_)
  refine (Layout.completeBreak_ends found ends rfl).mono ?_ fun _ _ failed => ?_
  · rintro _ _ ⟨j, isBreak, rfl⟩
    have further := passes.lineBreak isBreak
    exact ⟨further, isBreak.lt⟩
  · exact ⟨fun _ => failed.excused, .inl (failed.resolve_left fun illegal => illegal.2).1⟩

theorem token_scanned {quote : CodePoint} (lineStart : Option Nat)
    (opened : c.braces = some braces) (found : src[c.index]? = some quote)
    (isQuote : quote = 0x27 ∨ quote = 0x22) :
    Meets (token src lineStart) c (fun token d => Scanned src c token d) (Excused src) := by
  obtain ⟨elements, rest, -, ahead, met⟩ := token_decides lineStart isQuote found
  obtain ⟨index, -, braces⟩ := foldl_pass elements { c with index := c.index + 1 }
  have size := src.length_ahead c.index
  rw [ahead] at size
  simp only [length_cons, length_append] at size
  refine met.mono ?_ fun fault d refused => ?_
  · rintro _ _ ⟨⟨more, rfl⟩, rfl, rfl⟩
    have stop : (StringElement.close c elements).index = c.index + (StringElement.text elements).length + 2 := by
      simp only [StringElement.close, index]
      omega
    rw [length_cons] at size
    refine .of_plain trivial opened rfl stop.symm ⟨?_, ?_, braces⟩ ?_ (by rintro _ ⟨⟩) <;> rw [stop] <;> omega
  · rcases refused with ⟨rfl, -⟩ | ⟨rfl, cut, ended⟩
    · trivial
    have last : ∀ left ∈ [[0x5C], [0x5C, 0x0D], [0x5C, 0x75], [0x5C, 0x78], [0x5C, 0x75, 0x7B],
        [0x5C, 0x78, 0x7B]], ∃ ch, left.getLast? = some ch ∧ ch ≠ 0x44 := by decide
    obtain ⟨ch, isLast, other⟩ := last rest cut
    refine ⟨Name.not_sealed ahead ?_ other, fun brace => ?_⟩
    · rw [← cons_append, List.getLast?_append, isLast, Option.some_or]
    · rw [ahead_of_found brace] at ended
      cases ended

theorem close_passes {elements : List StringElement} {quote : CodePoint} {rest : Text}
    (isQuote : quote = 0x27 ∨ quote = 0x22) (spelled : StringElement.Spelled quote elements (quote :: rest))
    (ahead : src.ahead c.index = quote :: (StringElement.text elements ++ quote :: rest)) :
    c.Passes src (StringElement.close c elements) := by
  have inLine : isLineTerminator quote = false := by rcases isQuote with rfl | rfl <;> decide
  have passes := passes_foldl spelled (d := { c with index := c.index + 1 })
    (ahead_cons ahead) (Cursor.Passes.refl.step (getElem?_head ahead) inLine)
  obtain ⟨index, -, -⟩ := foldl_pass elements { c with index := c.index + 1 }
  refine passes.step (getElem?_head (show _ = quote :: rest from ?_)) inLine
  rw [index, ahead_append (ahead_cons ahead)]

end StringLiteral

namespace Template

theorem escape_passes (passes : c.Passes src d) (room : Roomy src d.index) :
    Meets (escape src) d (fun _ e => c.Passes src e ∧ d.index ≤ e.index) (c.Fails src excuse) := by
  refine next_passes room fun ch found => .ite (fun ends => ?_) fun sameLine => ?_
  · exact (StringLiteral.continuation_passes passes found ends).bind fun _ e met => ⟨met.1, Nat.le_of_lt met.2⟩
  have further := passes.step found (by simpa using sameLine)
  have inside := (Array.getElem?_eq_some_iff.mp found).1
  have moved := Nat.le_succ d.index
  refine .ite (fun isHex => ?_) fun _ => ?_
  · have mark : ch = 0x75 ∨ ch = 0x78 := by simpa using isHex
    have room' : Roomy src (d.index + 1) := .after found (by rcases mark with rfl | rfl <;> decide)
    refine current_passes room' fun ch' found' => .ite (fun isBrace => .modify_bind ?_) fun _ => .get_bind ?_
    · subst isBrace
      have inside' := (Array.getElem?_eq_some_iff.mp found').1
      refine (Escape.braced_passes (further.step found' (by decide)) inside' (.after found' (by decide))).imp ?_
      exact fun _ e met => ⟨met.1, Nat.le_trans (Nat.le_add_right _ 2) met.2⟩
    · refine (Escape.hex_along _).bind fun value e along => ?_
      have behind := ((Cursor.Along.passes along).reaches inside).index
      split
      · exact ⟨further.along along, Nat.le_trans moved behind⟩
      · -- The digits are given back, and the line is still the same.
        obtain ⟨j, -, rfl⟩ := along
        exact ⟨further, moved⟩
  · split
    · exact ⟨further, moved⟩
    · refine .ite (fun isZero => ?_) fun _ => .ite (fun _ => further.fails_here trivial) fun _ => ⟨further, moved⟩
      refine current_passes (.after found (by simp [isZero])) fun ch' _ => ?_
      exact .ite (fun _ => further.fails_here trivial) fun _ => ⟨further, moved⟩

/-- A piece of a template leaves one brace more open when it ends in a substitution. -/
theorem body_passes (bound : c.index ≤ src.size) :
    Meets (body src) c (fun (_, tail) d => ∃ e, c.Passes src e ∧ d =
      { e with braces := if tail then e.braces else e.braces.map (· ++ [.substitution]) })
      (c.Fails src (c.braces.isSome)) := by
  refine repeated_meets (fun _ d => c.Passes src d) (fun _ _ passes => (passes.reaches bound).bound) ?_ .refl
  intro cooked d passes
  have moved := Nat.lt_succ_self d.index
  refine atEnd_ite (fun _ => passes.fails_here trivial) fun inside =>
    next_passes (.of_lt inside) fun ch found => ?_
  refine .ite (fun isQuote => ?_) fun _ => .ite (fun isDollar => ?_) fun _ => .ite (fun isBackslash => ?_) fun _ =>
    .ite (fun ends => ?_) fun sameLine => ⟨passes.step found (by simpa using sameLine), moved⟩
  · subst isQuote
    exact ⟨_, passes.step found (by decide), rfl⟩
  · subst isDollar
    have further := passes.step found (by decide)
    refine current_passes (.after found (by decide)) fun ch' found' => .ite (fun isBrace => ?_) fun _ =>
      ⟨further, moved⟩
    subst isBrace
    refine .into (.get_bind ?_)
    split
    next braces opened =>
      refine ⟨_, further.step found' (by decide), ?_⟩
      simp only [show d.braces = some braces from opened]
      rfl
    next absent =>
      have same : d.braces = c.braces := (passes.reaches bound).braces
      refine ⟨fun opened => ?_, .inr ⟨_, _, further, Nat.le_refl _, rfl⟩⟩
      rw [← same, show d.braces = none from absent] at opened
      cases opened
  · subst isBackslash
    refine (escape_passes (passes.step found (by decide)) (.after found (by decide))).bind fun _ e met => ?_
    exact ⟨met.1, Nat.lt_of_lt_of_le moved met.2⟩
  · exact (StringLiteral.continuation_passes passes found ends).bind fun _ e met => met

/-- A piece that starts with a brace closes a brace, so that of a substitution has to be open. -/
theorem token_meets (opened : c.braces = some braces) (found : src[c.index]? = some ch)
    (starts : ch = 0x60 ∨ ch = 0x7D ∧ braces.getLast? = some .substitution) :
    Meets (token src) c (fun token d => Scanned src c token d) (Excused src) := by
  have inside : c.index < src.size := (Array.getElem?_eq_some_iff.mp found).1
  refine .get_bind (current_bind (.of_found found) fun ch' found' => ?_)
  obtain rfl : ch' = ch := Option.some.inj (found'.symm.trans found)
  refine .modify_bind ?_
  refine Meets.bind ((body_passes (c := { c with index := c.index + 1 }) inside).mono (fun _ _ met => met)
    fun _ _ failed => failed.1 (by simp [opened])) ?_
  rintro ⟨cooked, tail⟩ _ ⟨e, passes, rfl⟩
  have ⟨index, bound, same⟩ := passes.reaches inside
  have opened' : (if tail then e.braces else e.braces.map (· ++ [.substitution])) =
      some (if tail then braces else braces ++ [.substitution]) := by
    rw [same, opened]
    cases tail <;> rfl
  have other {weightless : Prop} (isSemicolon : src[c.index]? = some 0x3B) : weightless := by
    obtain rfl : ch' = 0x3B := Option.some.inj (found.symm.trans isSemicolon)
    rcases starts with impossible | ⟨impossible, -⟩ <;> cases impossible
  refine Meets.ite (fun isHead => ?_) fun notHead => ?_
  · refine ⟨rfl, rfl, bound, nofun, fun _ => index, ⟨braces, _, opened, opened', ?_⟩, nofun, other, nofun⟩
    simp only [isHead]
    cases tail <;> rfl
  · have inner : braces.getLast? = some .substitution := (starts.resolve_left (by simpa using notHead)).2
    have nonempty : braces ≠ [] := by
      rintro rfl
      cases inner
    refine (closeBrace_meets opened' (by cases tail <;> simp [nonempty])).bind fun _ e closed => ?_
    subst closed
    refine ⟨rfl, rfl, bound, nofun, fun _ => index, ⟨braces, _, opened, rfl, ?_⟩, nofun, other, nofun⟩
    have middle : decide (ch' = 0x60) = false := by simpa using notHead
    simp only [middle]
    cases tail <;> simp [Lexeme.turn?, Lexeme.bracket?, Bracket.after?, inner]

end Template

/-! ### Marks -/

namespace Mark

theorem longest?_isPrefix {ahead : Text} {mark : Punctuator}
    (found : Punctuator.longest? ahead = some mark) : mark.text <+: ahead := by
  obtain ⟨entry, first, rfl⟩ := Option.map_eq_some_iff.mp found
  obtain ⟨mark, -, rfl⟩ := mem_map.mp (List.mem_of_find?_eq_some first)
  have isPrefix := List.find?_some first
  exact isPrefixOf_iff_prefix.mp isPrefix

theorem text_ne_nil (mark : Punctuator) : mark.text ≠ [] := by
  cases mark <;> decide

theorem longest?_slice {index : Nat} {mark : Punctuator}
    (found : Punctuator.longest? (src.slice index (index + 4)) = some mark) :
    src[index]? = mark.text.head? ∧ index + mark.text.length ≤ src.size := by
  have starts := longest?_isPrefix found
  have length := starts.length_le
  have nonempty := length_pos_iff.mpr (text_ne_nil mark)
  rw [Layout.slice_length] at length
  refine ⟨?_, by omega⟩
  have first : (src.slice index (index + 4))[0]? = src[index]? := slice_getElem? (by omega)
  obtain ⟨rest, whole⟩ := starts
  rw [← first, ← List.head?_eq_getElem?, ← whole]
  cases spelled : mark.text with
  | nil => exact absurd spelled (text_ne_nil mark)
  | cons ch more => rfl

/-- The mark at the cursor. Only a closing brace needs an open one, that of a block. -/
theorem token_meets (opened : c.braces = some braces)
    (inside : c.index < src.size) (hasOpen : src[c.index]? = some 0x7D → braces.getLast? = some .block) :
    Meets (token src) c (fun token d => Scanned src c token d) (Excused src) := by
  refine .get_bind ?_
  have scanned {mark : Punctuator} {d : Cursor} {after : List Brace}
      (found : Punctuator.longest? (src.slice c.index (c.index + 4)) = some mark)
      (index : d.index = c.index + mark.text.length) (opened' : d.braces = some after)
      (turns : (Lexeme.punctuator mark).turn? braces = some after) :
      Meets (do
        pure
          { lexeme := .punctuator mark
            lineNumber := c.lineNumber
            lineStart := some c.lineStart
            start := c.index
            stop := (← get).index }) d (fun token d => Scanned src c token d) (Excused src) := by
    obtain ⟨first, bound⟩ := longest?_slice found
    have positive := length_pos_iff.mpr (text_ne_nil mark)
    refine ⟨rfl, rfl, by omega, nofun, fun _ => by omega, ⟨braces, after, opened, opened', turns⟩,
      fun mark' isMark => ?_, fun isSemicolon => ?_, nofun⟩
    · cases isMark
      exact ⟨first, index⟩
    · rw [first] at isSemicolon
      cases mark
      case openBrace | closeBrace => cases isSemicolon
      all_goals rfl
  refine .into (current_bind (.of_lt inside) fun _ _ => ?_)
  refine .get_bind ?_
  dsimp only
  split
  next => trivial
  next found =>
    refine .into (.get_bind ?_)
    simp only [opened]
    exact scanned found rfl rfl rfl
  next found =>
    have inner : braces.getLast? = some .block := hasOpen (longest?_slice found).1
    have nonempty : braces ≠ [] := by
      rintro rfl
      cases inner
    refine .modify_bind ?_
    refine Meets.bind (closeBrace_meets (c := { c with index := c.index + 1 }) opened nonempty) ?_
    rintro _ d rfl
    exact scanned found rfl rfl (if_pos inner)
  next mark notOpen notClose found =>
    have stays : (Lexeme.punctuator mark).turn? braces = some braces := by
      cases mark
      case openBrace => exact absurd rfl notOpen
      case closeBrace => exact absurd rfl notClose
      all_goals rfl
    exact scanned found rfl opened stays

end Mark

/-! ### Tokens -/

/-- The faults that reading a token may end in. A closing brace without an open one is found out before anything
is read. -/
def Unread (src : Source) (c : Cursor) (fault : ScanFault) (d : Cursor) : Prop :=
  Excused src fault d ∨ fault = .noOpenBrace ∧ d = c ∧ src[c.index]? = some 0x7D ∧ c.braces = some []

theorem Meets.unread {α : Type} {scanner : ScanM α} {returns : α → Cursor → Prop}
    (met : Meets scanner c returns (Excused src)) : Meets scanner c returns (Unread src c) :=
  met.mono (fun _ _ answered => answered) fun _ _ excused => .inl excused

namespace Lexer

/-- A name as it is understood in strict code or elsewhere. -/
def named (strict : Bool) (token : Token) : Token :=
  if strict then { token with lexeme := token.lexeme.inStrictCode } else token

theorem named_plain (strict : Bool) {token : Token} (plain : token.lexeme.IsPlain) :
    (named strict token).lexeme.IsPlain := by
  cases strict with
  | true => exact Lexeme.inStrictCode_plain plain
  | false => exact plain

/-- The name at the cursor. -/
theorem nameToken_decides (strict : Bool) (found : src[c.index]? = some ch)
    (starts : isIdentifierStart ch = true) :
    Meets (nameToken src strict) c (fun token d => ∃ parts rest, NamePart.Spells parts ∧
      Text.Stops isIdentifierPart rest ∧ c.Took src (NamePart.text parts) rest d ∧
      token = named strict (NamePart.token parts c)) (Name.Broken src c [ch]) := by
  refine (Name.token_decides found starts).bind ?_
  rintro _ d ⟨parts, rest, spells, stops, took, rfl⟩
  exact ⟨parts, rest, spells, stops, took, rfl⟩

theorem token_of_start {strict : Bool} {lineStart : Option Nat} {returns : Token → Cursor → Prop}
    {fails : ScanFault → Cursor → Prop} (found : src[c.index]? = some ch)
    (starts : isIdentifierStart ch = true) (name : Meets (nameToken src strict) c returns fails) :
    Meets (token src strict lineStart) c returns fails := by
  have inside := (Array.getElem?_eq_some_iff.mp found).1
  refine atEnd_ite (fun past => absurd inside (Nat.not_lt.mpr past)) fun _ => ahead_found found ?_
  rw [if_pos starts]
  exact name

theorem nameToken_meets (strict : Bool)
    (found : src[c.index]? = some ch) (starts : isIdentifierStart ch = true)
    (opened : c.braces = some braces) :
    Meets (nameToken src strict) c (fun token d => Scanned src c token d) (Excused src) := by
  refine (nameToken_decides strict found starts).mono ?_ fun _ _ broken => broken.excused
  rintro _ d ⟨parts, rest, spells, -, took, rfl⟩
  have moved : c.index < d.index := by
    rw [took.index_eq]
    exact Nat.lt_add_of_pos_right (length_pos_iff.mpr (Name.text_ne_nil spells))
  have reach := took.reaches (Nat.le_of_lt (Array.getElem?_eq_some_iff.mp found).1)
  refine .of_plain (named_plain strict (Lexeme.ofName_plain _)) opened ?_ ?_ reach moved ?_
  · cases strict <;> rfl
  · rw [took.index_eq]
    cases strict <;> rfl
  · intro word isWord length ends
    refine Name.keyword_stops ends spells took (show _ = word.text from ?_)
    cases strict with
    | true => exact Name.text_of_inStrictCode isWord
    | false => exact Name.text_of_ofName isWord

/-- The token at the cursor, by its first character. -/
theorem token_dispatch {strict : Bool} {lineStart : Option Nat} {returns : Token → Cursor → Prop}
    {fails : ScanFault → Cursor → Prop} (ended : src.size ≤ c.index → Meets endToken c returns fails)
    (name : ∀ ch, src[c.index]? = some ch → isIdentifierStart ch = true →
      Meets (nameToken src strict) c returns fails)
    (mark : ∀ ch, src[c.index]? = some ch → ch ≠ 0x7D → Meets (Mark.token src) c returns fails)
    (string : ∀ ch, src[c.index]? = some ch → ch = 0x27 ∨ ch = 0x22 →
      Meets (StringLiteral.token src lineStart) c returns fails)
    (number : Numeral.Starts (src.ahead c.index) → Meets (Numeric.token src) c returns fails)
    (missing : src[c.index]? = some 0x2E → src[c.index + 1]? = none → fails .pastEnd c)
    (template : src[c.index]? = some 0x60 → Meets (Template.token src) c returns fails)
    (closing : src[c.index]? = some 0x7D → Meets (do
      if ← resumesTemplate then Template.token src else Mark.token src) c returns fails) :
    Meets (token src strict lineStart) c returns fails := by
  refine atEnd_ite ended fun inside => ?_
  obtain ⟨ch, more, here⟩ := exists_ahead inside
  have found := getElem?_head here
  refine current_ahead here (.ite (name ch found) fun _ => .ite (fun isMark => ?_) fun _ =>
    .ite (fun isQuote => string ch found (by simpa using isQuote)) fun _ => .ite (fun isPoint => ?_) fun _ =>
    .ite (fun isDigit => number (here ▸ .digit isDigit)) fun _ => .ite (fun isQuote => ?_) fun _ =>
    .ite (fun isBrace => closing (isBrace ▸ found)) fun notBrace => mark ch found notBrace)
  · refine mark ch found ?_
    rintro rfl
    exact absurd isMark (by decide)
  · subst isPoint
    refine .into (.get_bind ?_)
    cases more with
    | nil =>
      have none := src.getElem?_ahead c.index 1
      rw [here] at none
      simp only [none]
      exact missing found none
    | cons next more =>
      simp only [getElem?_head (ahead_cons here)]
      exact .ite (fun isDigit => number (here ▸ .point isDigit)) fun _ => mark 0x2E found (by decide)
  · exact template (isQuote ▸ found)

theorem token_cases {strict : Bool} {lineStart : Option Nat} {returns : Token → Cursor → Prop}
    (ended : src.size ≤ c.index → Meets endToken c returns anyFault)
    (name : ∀ parts rest d, NamePart.Spells parts → c.Took src (NamePart.text parts) rest d →
      returns (named strict (NamePart.token parts c)) d)
    (mark : Meets (Mark.token src) c returns anyFault)
    (string : Meets (StringLiteral.token src lineStart) c returns anyFault)
    (number : ∀ (n : Numeral) (rest : Text) (d : Cursor), n.Valid → c.Took src n.spelling rest d →
      returns (n.token c) d) (template : ∀ ch, src[c.index]? = some ch → ch = 0x60 ∨ ch = 0x7D →
      Meets (Template.token src) c returns anyFault) :
    Meets (token src strict lineStart) c returns anyFault := by
  refine token_dispatch ended (fun ch found starts => ?_) (fun _ _ _ => mark) (fun _ _ _ => string)
    (fun starts => ?_) (fun _ _ => trivial) (fun found => template 0x60 found (.inl rfl)) fun found => ?_
  · refine (nameToken_decides strict found starts).mono ?_ fun _ _ _ => trivial
    rintro _ d ⟨parts, rest, spells, -, took, rfl⟩
    exact name parts rest d spells took
  · obtain ⟨n, rest, at_n, met⟩ := Numeral.token_decides starts
    refine met.mono ?_ fun _ _ _ => trivial
    rintro token d ⟨rfl, took, -⟩
    exact number n rest d at_n.valid took
  · refine .into (.get_bind ?_)
    split
    · trivial
    · split
      · trivial
      · exact .ite (fun _ => template 0x7D found (.inr rfl)) fun _ => mark

theorem token_meets (strict : Bool) (lineStart : Option Nat)
    (bound : c.index ≤ src.size) (opened : c.braces = some braces) :
    Meets (token src strict lineStart) c (fun token d => Scanned src c token d) (Unread src c) := by
  have inside {ch : CodePoint} (found : src[c.index]? = some ch) : c.index < src.size :=
    (Array.getElem?_eq_some_iff.mp found).1
  refine token_dispatch (fun ended => ?_)
    (fun ch found starts => (nameToken_meets strict found starts opened).unread) (fun ch found other => ?_)
    (fun ch found isQuote => (StringLiteral.token_scanned lineStart opened found isQuote).unread)
    (fun starts => (Numeric.token_meets opened starts).unread) (fun found none => .inl ⟨?_, ?_⟩)
    (fun found => (Template.token_meets opened found (.inl rfl)).unread) fun found => ?_
  · exact ⟨rfl, rfl, bound, fun _ => ⟨Nat.le_antisymm bound ended, Nat.le_antisymm bound ended⟩,
      fun notEnd => absurd rfl notEnd, ⟨braces, braces, opened, opened, rfl⟩, nofun, fun _ => rfl, nofun⟩
  · refine (Mark.token_meets opened (inside found) fun isBrace => ?_).unread
    exact absurd (Option.some.inj (found.symm.trans isBrace)) other
  · intro length ends
    have room := ends.room found (by decide)
    exact absurd (Array.getElem?_eq_none_iff.mp none) (Nat.not_le.mpr room)
  · rw [found]
    exact nofun
  · refine .into (.get_bind ?_)
    simp only [opened]
    cases last : braces.getLast? with
    | none =>
      have empty : braces = [] := List.getLast?_eq_none_iff.mp last
      exact .inr ⟨rfl, rfl, found, empty ▸ opened⟩
    | some brace =>
      refine Meets.ite (fun resumes => ?_) fun closes => ?_
      · obtain rfl : brace = .substitution := of_decide_eq_true resumes
        exact (Template.token_meets opened found (.inr ⟨rfl, last⟩)).unread
      · cases brace with
        | block => exact (Mark.token_meets opened (inside found) fun _ => last).unread
        | substitution => exact absurd (decide_eq_true rfl) closes

end Lexer

/-! ### Regular expressions -/

namespace RegExp

theorem Refused.fails {fault : ScanFault} (refused : Refused src c fault d) : c.Fails src excuse fault d := by
  rcases refused with ⟨isFault, j, behind, rfl⟩ | ⟨rfl, missing, index, last⟩
  · exact Cursor.Passes.refl.fails behind (by rcases isFault with rfl | rfl <;> trivial)
  · refine ⟨fun _ => ⟨Name.not_sealed last rfl (by decide), ?_⟩, .inl rfl⟩
    rw [missing]
    exact nofun

theorem scan_along : Meets (scan src) c
    (fun r d => c.Along src d ∧ r.stop = d.index ∧ c.index + 2 ≤ d.index ∧ r.raw.head? = some 0x2F)
    (c.Fails src (src[c.index]? = some 0x2F)) := by
  by_cases found : src[c.index]? = some 0x2F
  · refine (scan_meets (ahead_of_found found)).mono ?_ fun _ _ failed => failed.2.fails
    rintro _ d ⟨pattern, flags, rest, spelled, rfl, took, -⟩
    refine ⟨took.along (forall_mem_append.mpr ⟨delimited_inLine spelled.pattern, fun ch member => ?_⟩),
      took.index_eq.symm, ?_, rfl⟩
    · exact inLine_of_member isIdentifierPart_inLine (spelled.named ch member)
    · rw [took.index_eq]
      simp only [delimited, length_append, length_cons]
      omega
  · have other (fault : ScanFault) : c.Fails src (src[c.index]? = some 0x2F) fault c :=
      ⟨fun isSlash => absurd isSlash found, .inr ⟨c, _, .refl, Nat.le_refl _, rfl⟩⟩
    refine .get_bind (.into ?_)
    cases here : src[c.index]? with
    | none =>
      refine .into (.get_bind ?_)
      simp only [Nat.add_zero, here]
      exact here ▸ other .pastEnd
    | some ch =>
      refine ahead_found here (.ite (fun isSlash => absurd (isSlash ▸ here) found) fun _ => ?_)
      exact here ▸ other .notRegExp

theorem scan_reaches (found : src[c.index]? = some 0x2F) :
    Meets (scan src) c (fun _ d => c.Reaches src d ∧ c.index < d.index) (Excused src) := by
  refine scan_along.mono (fun _ d met => ?_) fun _ _ failed => failed.1 found
  refine ⟨met.1.passes.reaches (Nat.le_of_lt (Array.getElem?_eq_some_iff.mp found).1), ?_⟩
  exact Nat.lt_of_succ_lt met.2.2.1

end RegExp

end EcmaScript
