import EcmaScript.Proofs.Ahead

/-!
How names are spelled. Each character of a name is written as it is or as an escape. The scanner of
names takes the longest sequence of such parts and resolves them, and a name with escapes is the same
as one without. It fails only at a backslash that no escape follows.
-/

namespace EcmaScript

open Scan Character List Text Source

/-- A character of a name as it is written: itself, or an escape with the digits of its number. -/
inductive NamePart where
  | plain (ch : CodePoint)
  | escape (digits : Text)
  deriving DecidableEq, Repr

namespace NamePart

def spelling : NamePart → Text
  | plain ch => [ch]
  | escape digits => 0x5C :: 0x75 :: digits

def value : NamePart → CodePoint
  | plain ch => ch
  | escape digits => positional 16 digits

/-- An escape has four hexadecimal digits, large or small ones. -/
def Formed : NamePart → Prop
  | plain _ => True
  | escape digits => digits.length = 4 ∧ ∀ ch ∈ digits, isHexDigit ch = true

/-- The part stands for a character of a class, which is no backslash. -/
structure Valid (allowed : CodePoint → Bool) (part : NamePart) : Prop where
  formed : part.Formed
  value : allowed part.value = true
  other : part.value ≠ 0x5C

def text (parts : List NamePart) : Text :=
  parts.flatMap spelling

def name (parts : List NamePart) : Text :=
  parts.map value

/-- The parts of a name: one that may start an identifier and others that may go on with it. -/
def Spells : List NamePart → Prop
  | [] => False
  | first :: parts =>
    first.Valid isIdentifierStart ∧ ∀ part ∈ parts, part.Valid isIdentifierPart

def token (parts : List NamePart) (c : Cursor) : Token where
  lexeme := Lexeme.ofName (name parts)
  raw := some (text parts)
  lineNumber := c.lineNumber
  lineStart := some c.lineStart
  start := c.index
  stop := c.index + (text parts).length

@[simp]
theorem text_nil : text [] = [] :=
  rfl

@[simp]
theorem text_cons (part : NamePart) (parts : List NamePart) :
    text (part :: parts) = part.spelling ++ text parts :=
  rfl

@[simp]
theorem text_plain (name : Text) : text (name.map plain) = name := by
  induction name with
  | nil => rfl
  | cons ch name ih => simp [spelling, ih]

@[simp]
theorem name_plain (text : Text) : name (text.map plain) = text := by
  rw [name, map_map]
  exact map_id text

end NamePart

variable {src : Source} {c d : Cursor} {ch : CodePoint} {text rest left digits : Text}

/-! ### Hexadecimal digits -/

theorem Text.exists_digits (member : CodePoint → Bool) (count : Nat) (left : Text) :
    ∃ digits rest, left = digits ++ rest ∧ (∀ ch ∈ digits, member ch = true) ∧
      (digits.length = count ∨ digits.length < count ∧ Stops member rest) := by
  obtain ⟨taken, rest, rfl, all, stops⟩ := exists_span member left
  by_cases few : taken.length < count
  · exact ⟨taken, rest, rfl, all, .inr ⟨few, stops⟩⟩
  · refine ⟨taken.take count, taken.drop count ++ rest, ?_, fun ch isTaken => ?_, .inl ?_⟩
    · rw [← append_assoc, take_append_drop]
    · exact all ch (mem_of_mem_take isTaken)
    · rw [length_take]
      omega

/-- As many digits as are asked for have a value, and fewer have none. -/
theorem Escape.hexDigits_meets {returns : Option CodePoint → Cursor → Prop}
    {fails : ScanFault → Cursor → Prop} {count value : Nat} (all : ∀ ch ∈ digits, isHexDigit ch = true)
    (ended : digits.length = count ∨ digits.length < count ∧ Text.Stops isHexDigit rest)
    (took : c.Took src text (digits ++ rest) d)
    (met : ∀ e, c.Took src (text ++ digits) rest e → returns (if digits.length = count then
      some (digits.foldl (fun value ch => value * 16 + digitValue ch) value) else none) e) :
    Meets (hexDigits src count value) d returns fails := by
  induction digits generalizing count value text d with
  | nil =>
    have answer := met d (by simpa using took)
    cases count with
    | zero => exact answer
    | succ count =>
      refine .get_bind ?_
      rw [took.lookup]
      cases rest with
      | nil => exact answer
      | cons ch rest =>
        have stops := (ended.resolve_left (by simp)).2 ch rest rfl
        simp only [nil_append, List.head?_cons, stops]
        exact answer
  | cons digit digits ih =>
    cases count with
    | zero => simp at ended
    | succ count =>
      refine .get_bind ?_
      rw [took.lookup]
      simp only [cons_append, List.head?_cons, all digit mem_cons_self, if_true]
      refine .modify_bind (ih (fun ch member => all ch (mem_cons_of_mem digit member))
        (by simpa using ended) took.skip fun e took' => ?_)
      simpa using met e (by simpa using took')

namespace Name

/-! ### Escapes -/

/-- No escape for a character of the class goes on here behind its backslash. -/
def Unescaped (allowed : CodePoint → Bool) (left : Text) : Prop :=
  ∀ digits rest, left = 0x75 :: (digits ++ rest) → ¬ (NamePart.escape digits).Valid allowed

/-- The scanner has failed behind a text, at a backslash without an escape. -/
def Broken (src : Source) (c : Cursor) (text : Text) (fault : ScanFault) (d : Cursor) : Prop :=
  ∃ extra left, c.Took src (text ++ extra) left d ∧ (∀ ch ∈ extra, isIdentifierPart ch = true) ∧
    (fault = .illegal ∨ fault = .pastEnd ∧ left = [] ∧ (text ++ extra).getLast? = some 0x5C)

theorem Broken.of_append {extra : Text} {fault : ScanFault}
    (broken : Broken src c (text ++ extra) fault d)
    (named : ∀ ch ∈ extra, isIdentifierPart ch = true) : Broken src c text fault d := by
  obtain ⟨more, left, took, named', reason⟩ := broken
  refine ⟨extra ++ more, left, by rwa [← append_assoc], fun ch member => ?_,
    by rwa [← append_assoc]⟩
  rcases mem_append.mp member with member | member
  · exact named ch member
  · exact named' ch member

theorem isIdentifierPart_of_hex (isHex : isHexDigit ch = true) : isIdentifierPart ch = true := by
  have small : ch < 0x67 := by
    simp only [isHexDigit, isDecimalDigit] at isHex
    grind
  have all : ∀ ch < 0x67, isHexDigit ch = true → isIdentifierPart ch = true := by decide
  exact all ch small isHex

theorem named_escape (all : ∀ ch ∈ digits, isHexDigit ch = true) :
    ∀ ch ∈ 0x75 :: digits, isIdentifierPart ch = true := by
  intro ch member
  rcases mem_cons.mp member with rfl | member
  · decide
  · exact isIdentifierPart_of_hex (all ch member)

variable {allowed : CodePoint → Bool} {α : Type} {f : CodePoint → ScanM α}
variable {returns : α → Cursor → Prop} {fails : ScanFault → Cursor → Prop}

theorem escape_reads (valid : (NamePart.escape digits).Valid allowed)
    (took : c.Took src text (0x75 :: (digits ++ rest)) d)
    (met : ∀ e, c.Took src (text ++ 0x75 :: digits) rest e →
      Meets (f (positional 16 digits)) e returns fails) :
    Meets (escape src allowed >>= f) d returns fails := by
  refine .into (took.current ?_)
  rw [if_pos rfl]
  refine .modify_bind (.into (Escape.hexDigits_meets valid.formed.2
    (.inl valid.formed.1) took.skip fun e took' => ?_))
  rw [if_pos valid.formed.1]
  have value : allowed (positional 16 digits) = true := valid.value
  have other : positional 16 digits ≠ 0x5C := valid.other
  change Meets (if (positional 16 digits = 0x5C || !allowed (positional 16 digits)) = true then
    throw ScanFault.illegal else pure (positional 16 digits)) e _ _
  rw [if_neg (by simp [value, other])]
  exact met e (by simpa using took')

theorem escape_fails (none : Unescaped allowed left) (took : c.Took src (text ++ [0x5C]) left d) :
    Meets (escape src allowed >>= f) d returns (Broken src c (text ++ [0x5C])) := by
  refine .into ?_
  cases left with
  | nil => exact took.missing ⟨[], [], by simpa using took, nofun, .inr ⟨rfl, rfl, by simp⟩⟩
  | cons letter left =>
    refine took.current (.ite (fun isLetter => ?_) fun _ => ?_)
    · subst isLetter
      obtain ⟨digits, rest, rfl, all, ended⟩ := exists_digits isHexDigit 4 left
      refine .modify_bind (.into (Escape.hexDigits_meets all ended took.skip ?_))
      intro e took'
      have broken : Broken src c (text ++ [0x5C]) .illegal e :=
        ⟨0x75 :: digits, rest, by simpa using took', named_escape all, .inl rfl⟩
      split
      next number isNumber =>
        obtain ⟨four, isValue⟩ := Option.ite_none_right_eq_some.mp isNumber
        obtain rfl : positional 16 digits = number := Option.some.inj isValue
        refine .ite (fun _ => broken) fun fits => ?_
        have fits : positional 16 digits ≠ 0x5C ∧ allowed (positional 16 digits) = true := by
          simpa using fits
        exact absurd ⟨⟨four, all⟩, fits.2, fits.1⟩ (none digits rest rfl)
      next => exact broken
    · exact ⟨[], _, by simpa using took, nofun, .inl rfl⟩

/-! ### The rest of a name -/

def tail (src : Source) (name : Text) : ScanM Text :=
  repeated src (fun name => do
    if ← atEnd src then pure (.inr name)
    else do
      let c ← current src
      if isIdentifierPart c then do
        skip 1
        let c ← if c = 0x5C then escape src isIdentifierPart else pure c
        pure (.inl (name ++ [c]))
      else pure (.inr name)) name

/-- What stands behind the parts of a name: the end of it, or a backslash without an escape. -/
def Ends (rest : Text) : Prop :=
  Text.Stops isIdentifierPart rest ∨ ∃ left, rest = 0x5C :: left ∧ Unescaped isIdentifierPart left

theorem exists_parts (left : Text) : ∃ parts rest, left = NamePart.text parts ++ rest ∧
    (∀ part ∈ parts, part.Valid isIdentifierPart) ∧ Ends rest := by
  induction size : left.length using Nat.strongRecOn generalizing left with
  | ind size ih =>
    subst size
    cases left with
    | nil => exact ⟨[], [], rfl, nofun, .inl stops_nil⟩
    | cons ch left =>
      by_cases isPart : isIdentifierPart ch = true
      · by_cases isBackslash : ch = 0x5C
        · subst isBackslash
          by_cases escaped : Unescaped isIdentifierPart left
          · exact ⟨[], _, rfl, nofun, .inr ⟨left, rfl, escaped⟩⟩
          · simp only [Unescaped, Classical.not_forall, Classical.not_not] at escaped
            obtain ⟨digits, behind, rfl, valid⟩ := escaped
            obtain ⟨parts, rest, rfl, all, ends⟩ := ih behind.length (by simp; omega) behind rfl
            exact ⟨.escape digits :: parts, rest, by simp [NamePart.spelling],
              forall_mem_cons.mpr ⟨valid, all⟩, ends⟩
        · obtain ⟨parts, rest, rfl, all, ends⟩ := ih left.length (by simp) left rfl
          exact ⟨.plain ch :: parts, rest, rfl,
            forall_mem_cons.mpr ⟨⟨trivial, isPart, isBackslash⟩, all⟩, ends⟩
      · exact ⟨[], _, rfl, nofun, .inl (stops_cons (by simpa using isPart))⟩

theorem named_spelling {part : NamePart} (valid : part.Valid isIdentifierPart) :
    ∀ ch ∈ part.spelling, isIdentifierPart ch = true := by
  cases part with
  | plain ch => exact forall_mem_singleton.mpr valid.value
  | escape digits =>
    intro ch member
    rcases mem_cons.mp member with rfl | member
    · decide
    · exact named_escape valid.formed.2 ch member

variable {parts : List NamePart}

theorem named_text (valid : ∀ part ∈ parts, part.Valid isIdentifierPart) :
    ∀ ch ∈ NamePart.text parts, isIdentifierPart ch = true := by
  intro ch member
  obtain ⟨part, isPart, member⟩ := mem_flatMap.mp member
  exact named_spelling (valid part isPart) ch member

theorem isIdentifierPart_of_start (starts : isIdentifierStart ch = true) :
    isIdentifierPart ch = true := by
  simp only [isIdentifierStart, isIdentifierPart, extraParts, Bool.or_eq_true, contains_iff_mem,
    mem_append] at starts ⊢
  exact starts.imp .inl .inl

/-- All that a name is written with may go on with a name. -/
theorem named_of_spells (spells : NamePart.Spells parts) :
    ∀ ch ∈ NamePart.text parts, isIdentifierPart ch = true := by
  cases parts with
  | nil => exact spells.elim
  | cons first parts =>
    refine named_text (forall_mem_cons.mpr ⟨?_, spells.2⟩)
    exact ⟨spells.1.formed, isIdentifierPart_of_start spells.1.value, spells.1.other⟩

theorem text_ne_nil (spells : NamePart.Spells parts) : NamePart.text parts ≠ [] := by
  cases parts with
  | nil => exact spells.elim
  | cons first parts => cases first <;> simp [NamePart.spelling]

theorem tail_meets {name : Text} (bound : c.index ≤ src.size)
    (valid : ∀ part ∈ parts, part.Valid isIdentifierPart) (ends : Ends rest)
    (took : c.Took src text (NamePart.text parts ++ rest) d) :
    Meets (tail src name) d (fun name' e => name' = name ++ NamePart.name parts ∧
      Text.Stops isIdentifierPart rest ∧ c.Took src (text ++ NamePart.text parts) rest e)
      (fun fault e => ¬ Text.Stops isIdentifierPart rest ∧ Broken src c text fault e) := by
  refine repeated_meets (fun name' e => ∃ before after, parts = before ++ after ∧
    name' = name ++ NamePart.name before ∧
    c.Took src (text ++ NamePart.text before) (NamePart.text after ++ rest) e)
    (fun _ _ holds => ?_) ?_ ⟨[], parts, rfl, by simp [NamePart.name], by simpa using took⟩
  · obtain ⟨_, _, -, -, took⟩ := holds
    exact (took.reaches bound).bound
  rintro _ e ⟨before, after, rfl, rfl, took⟩
  have named := named_text fun part member => valid part (mem_append_left after member)
  have stop (isNil : after = []) (stops : Text.Stops isIdentifierPart rest) :
      name ++ NamePart.name before = name ++ NamePart.name (before ++ after) ∧
      Text.Stops isIdentifierPart rest ∧ c.Took src (text ++ NamePart.text (before ++ after)) rest e := by
    subst isNil
    exact ⟨by simp, stops, by simpa using took⟩
  cases after with
  | nil =>
    have took : c.Took src (text ++ NamePart.text before) rest e := took
    refine atEnd_ite (fun ended => stop rfl ?_) fun inside => ?_
    · have ahead := took.ahead
      have none : src.ahead e.index = [] := length_eq_zero_iff.mp (by
        rw [src.length_ahead]
        omega)
      rw [← ahead, none]
      exact stops_nil
    · obtain ⟨ch, more, ahead⟩ := exists_ahead inside
      obtain rfl : rest = ch :: more := took.ahead.symm.trans ahead
      refine took.current (.ite (fun isPart => ?_) fun other => ?_)
      · rcases ends with stops | ⟨left, ⟨⟩, unescaped⟩
        · rw [stops ch more rfl] at isPart
          cases isPart
        · refine .modify_bind ?_
          rw [if_pos rfl]
          have isPart : isIdentifierPart 0x5C = true := by decide
          refine (escape_fails unescaped took.skip).mono (fun _ _ never => never) fun fault f broken => ?_
          refine ⟨fun stops => ?_, (broken.of_append (by simpa using isPart)).of_append named⟩
          rw [stops 0x5C _ rfl] at isPart
          cases isPart
      · exact stop rfl (stops_cons (by simpa using other))
  | cons part after =>
    have validPart := valid part (by simp)
    have onward {f : Cursor} (moved : e.index < f.index)
        (took' : c.Took src (text ++ NamePart.text before ++ part.spelling)
          (NamePart.text after ++ rest) f) :
        (∃ before' after', before ++ part :: after = before' ++ after' ∧
          name ++ NamePart.name before ++ [part.value] = name ++ NamePart.name before' ∧
          c.Took src (text ++ NamePart.text before') (NamePart.text after' ++ rest) f) ∧
          e.index < f.index := by
      refine ⟨⟨before ++ [part], after, by simp, by simp [NamePart.name], ?_⟩, moved⟩
      simpa [NamePart.text] using took'
    cases part with
    | plain ch =>
      refine atEnd_ahead took.ahead (took.current ?_)
      have value : isIdentifierPart ch = true := validPart.value
      have other : ch ≠ 0x5C := validPart.other
      rw [if_pos value]
      refine .modify_bind ?_
      rw [if_neg other]
      exact onward (Nat.lt_succ_self _) took.skip
    | escape digits =>
      have took : c.Took src (text ++ NamePart.text before)
          (0x5C :: 0x75 :: (digits ++ (NamePart.text after ++ rest))) e := by
        simpa [NamePart.spelling] using took
      refine atEnd_ahead took.ahead (took.current ?_)
      rw [if_pos (by decide)]
      refine .modify_bind ?_
      rw [if_pos rfl]
      refine escape_reads validPart took.skip fun f took' => onward ?_ ?_
      · rw [took'.index_eq, took.index_eq]
        simp
      · simpa [NamePart.spelling] using took'

/-! ### Names -/

/-- The first part of a name as the slow reader takes it. -/
def Begins : NamePart → Prop
  | .plain ch => ch ≠ 0x5C
  | .escape digits => (NamePart.escape digits).Valid isIdentifierStart

theorem escaped_meets {first : NamePart} (begins : Begins first)
    (valid : ∀ part ∈ parts, part.Valid isIdentifierPart) (ends : Ends rest)
    (found : src.ahead c.index = NamePart.text (first :: parts) ++ rest) :
    Meets (escaped src) c (fun name d => name = NamePart.name (first :: parts) ∧
      Text.Stops isIdentifierPart rest ∧ c.Took src (NamePart.text (first :: parts)) rest d)
      (fun fault d => ¬ Text.Stops isIdentifierPart rest ∧ Broken src c first.spelling fault d) := by
  have start : c.Took src [] (NamePart.text (first :: parts) ++ rest) c := found ▸ .start
  have bound : c.index ≤ src.size := by
    cases first <;> exact Nat.le_of_lt (lt_size_of_ahead found)
  cases first with
  | plain ch =>
    have other : ch ≠ 0x5C := begins
    refine next_ahead start.ahead ?_
    rw [if_neg other]
    exact tail_meets bound valid ends start.skip
  | escape digits =>
    have start : c.Took src [] (0x5C :: 0x75 :: (digits ++ (NamePart.text parts ++ rest))) c := by
      simpa [NamePart.spelling] using start
    refine next_ahead start.ahead ?_
    rw [if_pos rfl]
    refine escape_reads begins start.skip fun d took => ?_
    exact tail_meets bound valid ends took

theorem escaped_breaks (none : Unescaped isIdentifierStart left)
    (found : src.ahead c.index = 0x5C :: left) {returns : Text → Cursor → Prop} :
    Meets (escaped src) c returns (Broken src c [0x5C]) := by
  have start : c.Took src [] (0x5C :: left) c := found ▸ .start
  refine next_ahead found ?_
  rw [if_pos rfl]
  exact escape_fails none (show c.Took src ([] ++ [0x5C]) left _ from start.skip)

/-- A name that is written in full is read by both readers. -/
theorem escaped_reads {first : NamePart} (begins : Begins first)
    (valid : ∀ part ∈ parts, part.Valid isIdentifierPart) (stops : Text.Stops isIdentifierPart rest)
    (found : src.ahead c.index = NamePart.text (first :: parts) ++ rest) :
    escaped src c = .ok (NamePart.name (first :: parts))
      { c with index := c.index + (NamePart.text (first :: parts)).length } := by
  have met := escaped_meets begins valid (.inl stops) found
  cases run : escaped src c with
  | ok name d =>
    obtain ⟨rfl, -, took⟩ := met.of_ok run
    rw [took.cursor]
  | error fault d => exact absurd stops (met.of_error run).1

def isPlainPart (ch : CodePoint) : Bool :=
  isIdentifierPart ch && ch != 0x5C

/-- A name without escapes ends with its run. -/
theorem plain_eq (src : Source) (c : Cursor) : plain src c =
      if src[c.index + 1 + spanAt src isPlainPart (c.index + 1)]? = some 0x5C then escaped src c
      else .ok (src.slice c.index (c.index + 1 + spanAt src isPlainPart (c.index + 1)))
        { c with index := c.index + 1 + spanAt src isPlainPart (c.index + 1) } := by
  let stop := c.index + 1 + spanAt src isPlainPart (c.index + 1)
  have runs : plain src c = (if src[stop]? = some 0x5C then do moveTo c.index; escaped src
        else do return src.slice c.index (← get).index : ScanM Text) { c with index := stop } :=
    rfl
  rw [runs]
  split
  · rfl
  · rfl

theorem plain_eq_escaped (found : src[c.index]? = some ch) (other : ch ≠ 0x5C) :
    plain src c = escaped src c := by
  obtain ⟨taken, left, spelled, all, stops⟩ := exists_span isPlainPart (src.ahead (c.index + 1))
  have ahead := ahead_of_found found
  rw [spelled] at ahead
  have start : c.Took src [] (ch :: (taken ++ left)) c := ahead ▸ .start
  have took := start.skip.append
  rw [plain_eq, spanAt_text spelled all stops, took.lookup]
  split
  · rfl
  next backslash =>
    have parts (part : NamePart) (member : part ∈ taken.map NamePart.plain) :
        part.Valid isIdentifierPart := by
      obtain ⟨ch, isTaken, rfl⟩ := mem_map.mp member
      have isPart : isIdentifierPart ch = true ∧ ch ≠ 0x5C := by simpa [isPlainPart] using all ch isTaken
      exact ⟨trivial, isPart.1, isPart.2⟩
    have ends : Text.Stops isIdentifierPart left := by
      intro ch more isNext
      subst isNext
      have outside := stops ch more rfl
      have notBackslash : ch ≠ 0x5C := by simpa using backslash
      simpa [isPlainPart, notBackslash] using outside
    have begins : Begins (.plain ch) := other
    rw [escaped_reads begins parts ends (by simpa [NamePart.spelling] using ahead)]
    have slice := took.slice
    have index : c.index + 1 + taken.length = c.index + (ch :: taken).length := by
      rw [length_cons]
      omega
    rw [show src.slice c.index (c.index + 1 + taken.length) = ch :: taken from slice, index,
      ← map_cons, NamePart.name_plain, NamePart.text_plain]

theorem token_meets {returns : Token → Cursor → Prop} (found : src[c.index]? = some ch)
    (met : Meets (escaped src) c (fun name d => returns
      { lexeme := Lexeme.ofName name
        raw := some (src.slice c.index d.index)
        lineNumber := d.lineNumber
        lineStart := some d.lineStart
        start := c.index
        stop := d.index } d) fails) : Meets (token src) c returns fails := by
  refine .get_bind (ahead_found found (.ite (fun _ => .into met) fun other => ?_))
  refine .into ?_
  unfold Meets at met ⊢
  rw [plain_eq_escaped found other]
  exact met

theorem token_reads (spells : NamePart.Spells parts)
    (stops : Text.Stops isIdentifierPart rest) (found : src.ahead c.index = NamePart.text parts ++ rest) :
    token src c = .ok (NamePart.token parts c)
      { c with index := c.index + (NamePart.text parts).length } := by
  cases parts with
  | nil => exact spells.elim
  | cons first parts =>
    obtain ⟨starts, valid⟩ := spells
    have begins : Begins first := by
      cases first with
      | plain ch => exact starts.other
      | escape digits => exact starts
    have read := escaped_reads begins valid stops found
    have here : ∃ ch, src[c.index]? = some ch := by
      cases first <;> exact ⟨_, getElem?_head found⟩
    obtain ⟨ch, here⟩ := here
    have met : Meets (token src) c (fun token d => token = NamePart.token (first :: parts) c ∧
        d = { c with index := c.index + (NamePart.text (first :: parts)).length }) noFault := by
      refine token_meets here ?_
      unfold Meets
      rw [read]
      exact ⟨by rw [slice_append found]; rfl, rfl⟩
    obtain ⟨token, d, run, rfl, rfl⟩ := met.exists_ok
    exact run

/-- At a character that may start an identifier, a name is read or a backslash has no escape behind it. -/
theorem token_decides (found : src[c.index]? = some ch) (starts : isIdentifierStart ch = true) :
    Meets (token src) c (fun token d => ∃ parts rest, NamePart.Spells parts ∧
      Text.Stops isIdentifierPart rest ∧ c.Took src (NamePart.text parts) rest d ∧
      token = NamePart.token parts c) (Broken src c [ch]) := by
  have ahead := ahead_of_found found
  have reads {first : NamePart} {left : Text} (valid : first.Valid isIdentifierStart)
      (begins : Begins first) (ahead : src.ahead c.index = first.spelling ++ left)
      (single : ∀ {fault d}, Broken src c first.spelling fault d → Broken src c [ch] fault d) :
      Meets (token src) c (fun token d => ∃ parts rest, NamePart.Spells parts ∧
        Text.Stops isIdentifierPart rest ∧ c.Took src (NamePart.text parts) rest d ∧
        token = NamePart.token parts c) (Broken src c [ch]) := by
    obtain ⟨parts, rest, rfl, all, ends⟩ := exists_parts left
    refine token_meets found ((escaped_meets begins all ends (by simpa using ahead)).mono ?_ ?_)
    · rintro _ d ⟨rfl, stops, took⟩
      refine ⟨first :: parts, rest, ⟨valid, all⟩, stops, took, ?_⟩
      rw [took.slice, took.cursor]
      rfl
    · exact fun fault d broken => single broken.2
  by_cases backslash : ch = 0x5C
  · subst backslash
    by_cases none : Unescaped isIdentifierStart (src.ahead (c.index + 1))
    · exact token_meets found (escaped_breaks none ahead)
    · simp only [Unescaped, Classical.not_forall, Classical.not_not] at none
      obtain ⟨digits, left, spelled, valid⟩ := none
      rw [spelled] at ahead
      refine reads valid valid (by simpa [NamePart.spelling] using ahead) fun broken => ?_
      exact Broken.of_append (show Broken src c ([0x5C] ++ _) _ _ from broken) (named_escape valid.formed.2)
  · have valid : (NamePart.plain ch).Valid isIdentifierStart := ⟨trivial, starts, backslash⟩
    exact reads valid backslash ahead fun broken => broken

/-- A name by its characters. -/
def IsName (name : Text) : Prop :=
  ∃ first others, name = first :: others ∧ isIdentifierStart first = true ∧
    (∀ ch ∈ others, isIdentifierPart ch = true) ∧ 0x5C ∉ name

theorem spells_of_isName (isName : IsName (NamePart.name parts))
    (formed : ∀ part ∈ parts, part.Formed) : NamePart.Spells parts := by
  obtain ⟨first, others, spelled, starts, goesOn, noBackslash⟩ := isName
  cases parts with
  | nil => cases spelled
  | cons part parts =>
    obtain ⟨rfl, rfl⟩ := List.cons.inj spelled
    have other (part' : NamePart) (member : part' ∈ part :: parts) : part'.value ≠ 0x5C :=
      fun isBackslash => noBackslash (isBackslash ▸ mem_map_of_mem member)
    refine ⟨⟨formed part (by simp), starts, other part (by simp)⟩, fun part' member => ?_⟩
    have member' := mem_cons_of_mem part member
    exact ⟨formed part' member', goesOn _ (mem_map_of_mem member), other part' member'⟩

/-- However the characters of a name are written, the same token is read, spelled as it is written; and the
reader of names without escapes agrees with the one that resolves them. -/
theorem token_of_spelling (parts : List NamePart) (isName : IsName (NamePart.name parts))
    (formed : ∀ part ∈ parts, part.Formed) :
    (∀ src c rest, src.ahead c.index = NamePart.text parts ++ rest → Text.Stops isIdentifierPart rest →
      token src c = .ok
        { lexeme := Lexeme.ofName (NamePart.name parts)
          raw := some (NamePart.text parts)
          lineNumber := c.lineNumber
          lineStart := some c.lineStart
          start := c.index
          stop := c.index + (NamePart.text parts).length }
        { c with index := c.index + (NamePart.text parts).length }) ∧
    (∀ src c rest, src.ahead c.index = NamePart.name parts ++ rest → Text.Stops isIdentifierPart rest →
      ∃ plain d, token src c = .ok plain d ∧ plain.lexeme = Lexeme.ofName (NamePart.name parts)) ∧
    ∀ src c ch, src[c.index]? = some ch → ch ≠ 0x5C → plain src c = escaped src c := by
  refine ⟨fun src c rest found stops => token_reads (spells_of_isName isName formed) stops found,
    fun src c rest found stops => ?_, fun src c ch found other => plain_eq_escaped found other⟩
  have plainly : NamePart.Spells ((NamePart.name parts).map .plain) :=
    spells_of_isName (by simpa using isName) (by simp [NamePart.Formed])
  refine ⟨_, _, token_reads plainly stops (by simpa using found), ?_⟩
  rw [NamePart.token, NamePart.name_plain]

/-- A keyword with an escape in it is still the keyword. -/
theorem token_of_spelling_if :
    token (Source.ofText (Text.ofString "\\u0069f")) ⟨⟨0, 1, 0⟩, none, none⟩ = .ok
      { lexeme := .keyword .if_
        raw := some (Text.ofString "\\u0069f")
        lineNumber := 1
        lineStart := some 0
        start := 0
        stop := 7 } ⟨⟨7, 1, 0⟩, none, none⟩ := by
  have isName : IsName (NamePart.name [.escape (Text.ofString "0069"), .plain 0x66]) :=
    ⟨0x69, [0x66], by decide, by decide +kernel, by decide +kernel, by decide⟩
  have formed : ∀ part ∈ [NamePart.escape (Text.ofString "0069"), .plain 0x66], part.Formed := by
    refine forall_mem_cons.mpr ⟨⟨by decide, by decide⟩, forall_mem_singleton.mpr trivial⟩
  exact (token_of_spelling _ isName formed).1 (Source.ofText (Text.ofString "\\u0069f"))
    ⟨⟨0, 1, 0⟩, none, none⟩ [] (by decide) stops_nil

end Name

end EcmaScript
