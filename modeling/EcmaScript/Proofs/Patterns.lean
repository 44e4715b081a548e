import EcmaScript.Proofs.Names

/-!
How regular expressions are spelled. A pattern is a sequence of characters, escapes and classes; a slash
ends it unless an escape or a class holds the slash. Behind the closing slash come the flags, as many
characters as a name could have. The scanner takes just this text. It fails where the pattern is not
closed in its line, and where a backslash among the flags is followed by anything.
-/

namespace EcmaScript.RegExp

open Scan Character List Source

/-- What may stand between the brackets of a class. -/
inductive ClassItems : Text → Prop
  | nil : ClassItems []
  | char {ch : CodePoint} {rest : Text} (other : ch ≠ 0x5D ∧ ch ≠ 0x5C)
    (inLine : isLineTerminator ch = false) (items : ClassItems rest) : ClassItems (ch :: rest)
  | escape {ch : CodePoint} {rest : Text} (inLine : isLineTerminator ch = false)
    (items : ClassItems rest) : ClassItems (0x5C :: ch :: rest)

/-- What may stand between the slashes. -/
inductive IsPattern : Text → Prop
  | nil : IsPattern []
  | char {ch : CodePoint} {rest : Text} (other : ch ≠ 0x2F ∧ ch ≠ 0x5C ∧ ch ≠ 0x5B)
    (inLine : isLineTerminator ch = false) (more : IsPattern rest) : IsPattern (ch :: rest)
  | escape {ch : CodePoint} {rest : Text} (inLine : isLineTerminator ch = false)
    (more : IsPattern rest) : IsPattern (0x5C :: ch :: rest)
  | charClass {items rest : Text} (inside : ClassItems items) (more : IsPattern rest) :
    IsPattern (0x5B :: (items ++ 0x5D :: rest))

/-- A backslash is among the flags only if the source ends with it. -/
def Unescaped (flags rest : Text) : Prop :=
  ∀ before after, flags = before ++ 0x5C :: after → after = [] ∧ rest = []

/-- A pattern and the longest flags behind it. -/
structure Spelled (pattern flags rest : Text) : Prop where
  pattern : IsPattern pattern
  named : ∀ ch ∈ flags, isIdentifierPart ch = true
  stops : Text.Stops isIdentifierPart rest
  unescaped : Unescaped flags rest

def ofParts (pattern flags : Text) (start : Nat) : RegExp where
  pattern
  flags
  literal := delimited pattern ++ flags
  raw := delimited pattern ++ flags
  start
  stop := start + (delimited pattern ++ flags).length

/-! ### Where a pattern ends -/

/-- The rest of a pattern, where a class may be open. -/
def Completes : Bool → Text → Prop
  | false, text => IsPattern text
  | true, text => ∃ items rest, text = items ++ 0x5D :: rest ∧ ClassItems items ∧ IsPattern rest

def opensClass (inClass : Bool) (ch : CodePoint) : Bool :=
  if inClass then ch ≠ 0x5D else ch = 0x5B

/-- The text goes on with the rest of a pattern and a slash. -/
def Ends (inClass : Bool) (text pattern : Text) : Prop :=
  Completes inClass pattern ∧ ∃ rest, text = pattern ++ 0x2F :: rest

variable {inClass : Bool} {ch : CodePoint} {text rest pattern flags : Text}

theorem completes_nil : Completes inClass [] ↔ inClass = false := by
  cases inClass with
  | false => exact ⟨fun _ => rfl, fun _ => IsPattern.nil⟩
  | true => simp [Completes]

theorem completes_backslash : Completes inClass (0x5C :: text) ↔
      ∃ ch rest, text = ch :: rest ∧ isLineTerminator ch = false ∧ Completes inClass rest := by
  cases inClass with
  | false =>
    constructor
    · intro pattern
      cases pattern with
      | char other => exact absurd rfl other.2.1
      | escape inLine more => exact ⟨_, _, rfl, inLine, more⟩
    · rintro ⟨ch, rest, rfl, inLine, more⟩
      exact IsPattern.escape inLine more
  | true =>
    constructor
    · rintro ⟨items, rest, same, inside, more⟩
      cases inside with
      | nil => cases same
      | char other =>
        obtain ⟨rfl, -⟩ := List.cons.inj same
        exact absurd rfl other.2
      | escape inLine inside =>
        obtain ⟨-, rfl⟩ := List.cons.inj same
        exact ⟨_, _, rfl, inLine, _, rest, rfl, inside, more⟩
    · rintro ⟨ch, rest, rfl, inLine, items, more, rfl, inside, pattern⟩
      exact ⟨0x5C :: ch :: items, more, rfl, .escape inLine inside, pattern⟩

theorem completes_char (other : ch ≠ 0x5C) :
    Completes inClass (ch :: text) ↔ (inClass = false → ch ≠ 0x2F) ∧ isLineTerminator ch = false ∧
      Completes (opensClass inClass ch) text := by
  cases inClass with
  | false =>
    constructor
    · intro pattern
      cases pattern with
      | char others inLine more => exact ⟨fun _ => others.1, inLine, by simpa [opensClass, others.2.2]⟩
      | escape => exact absurd rfl other
      | charClass inside more => exact ⟨nofun, by decide, _, _, rfl, inside, more⟩
    · rintro ⟨notSlash, inLine, completes⟩
      by_cases opens : ch = 0x5B
      · subst opens
        obtain ⟨items, rest, rfl, inside, more⟩ := completes
        exact IsPattern.charClass inside more
      · refine IsPattern.char ⟨notSlash rfl, other, opens⟩ inLine ?_
        simpa [opensClass, opens, Completes] using completes
  | true =>
    constructor
    · rintro ⟨items, rest, same, inside, more⟩
      cases inside with
      | nil =>
        obtain ⟨rfl, rfl⟩ := List.cons.inj same
        exact ⟨nofun, by decide, more⟩
      | char others inLine inside =>
        obtain ⟨rfl, rfl⟩ := List.cons.inj same
        refine ⟨nofun, inLine, ?_⟩
        simpa [opensClass, others.1, Completes] using ⟨_, rest, rfl, inside, more⟩
      | escape => exact absurd (List.cons.inj same).1 other
    · rintro ⟨-, inLine, completes⟩
      by_cases closes : ch = 0x5D
      · subst closes
        exact ⟨[], text, rfl, .nil, completes⟩
      · obtain ⟨items, rest, rfl, inside, more⟩ : Completes true text := by
          simpa [opensClass, closes] using completes
        exact ⟨ch :: items, rest, rfl, .char ⟨closes, other⟩ inLine inside, more⟩

theorem ends_backslash {found : Text} : Ends inClass (0x5C :: ch :: text) found ↔
      ∃ pattern, found = 0x5C :: ch :: pattern ∧ isLineTerminator ch = false ∧ Ends inClass text pattern := by
  constructor
  · rintro ⟨completes, rest, same⟩
    cases found with
    | nil => cases same
    | cons first more =>
      obtain ⟨rfl, same⟩ := List.cons.inj same
      obtain ⟨ch', pattern, rfl, inLine, inner⟩ := completes_backslash.mp completes
      obtain ⟨rfl, rfl⟩ : ch = ch' ∧ text = pattern ++ 0x2F :: rest := by simpa using same
      exact ⟨pattern, rfl, inLine, inner, rest, rfl⟩
  · rintro ⟨pattern, rfl, inLine, completes, rest, rfl⟩
    exact ⟨completes_backslash.mpr ⟨ch, pattern, rfl, inLine, completes⟩, rest, rfl⟩

theorem ends_char {found : Text} (other : ch ≠ 0x5C) (goesOn : inClass = false → ch ≠ 0x2F) :
    Ends inClass (ch :: text) found ↔ ∃ pattern, found = ch :: pattern ∧ isLineTerminator ch = false ∧
      Ends (opensClass inClass ch) text pattern := by
  constructor
  · rintro ⟨completes, rest, same⟩
    cases found with
    | nil =>
      obtain ⟨rfl, -⟩ := List.cons.inj same
      exact absurd rfl (goesOn (completes_nil.mp completes))
    | cons first pattern =>
      obtain ⟨rfl, rfl⟩ := List.cons.inj same
      obtain ⟨-, inLine, completes⟩ := (completes_char other).mp completes
      exact ⟨pattern, rfl, inLine, completes, rest, rfl⟩
  · rintro ⟨pattern, rfl, inLine, completes, rest, rfl⟩
    exact ⟨(completes_char other).mpr ⟨goesOn, inLine, completes⟩, rest, rfl⟩

/-! ### The scanner -/

variable {src : Source} {c : Cursor}

/-- The scanner has failed: in the line where it started, or because the source ends with a
backslash. -/
def Refused (src : Source) (c : Cursor) (fault : ScanFault) (d : Cursor) : Prop :=
  (fault = .unterminatedRegExp ∨ fault = .illegal) ∧ (∃ j, c.index ≤ j ∧ d = { c with index := j }) ∨
    fault = .pastEnd ∧ src[d.index]? = none ∧ ∃ index, src.ahead index = [0x5C]

theorem Refused.skip {fault : ScanFault} {d : Cursor} {n : Nat}
    (refused : Refused src { c with index := c.index + n } fault d) : Refused src c fault d := by
  refine refused.imp_left (And.imp_right ?_)
  rintro ⟨j, behind, rfl⟩
  exact ⟨j, Nat.le_trans (Nat.le_add_right _ _) behind, rfl⟩

def patternRound (src : Source) : Text × Bool → ScanM ((Text × Bool) ⊕ Text) := fun (text, inClass) => do
  if ← atEnd src then throw .unterminatedRegExp
  else do
    let c ← next src
    if c = 0x5C then do
      let d ← next src
      if isLineTerminator d then throw .unterminatedRegExp
      else pure (.inl (text ++ [c, d], inClass))
    else if isLineTerminator c then throw .unterminatedRegExp
    else if inClass then pure (.inl (text ++ [c], c ≠ 0x5D))
    else if c = 0x2F then pure (.inr text)
    else pure (.inl (text ++ [c], decide (c = 0x5B)))

/-- Behind an unescaped character that neither ends the line nor the pattern the loop goes on. -/
theorem patternRound_char {before : Text} {returns : (Text × Bool) ⊕ Text → Cursor → Prop}
    {fails : ScanFault → Cursor → Prop} (found : src.ahead c.index = ch :: text) (other : ch ≠ 0x5C)
    (goesOn : inClass = false → ch ≠ 0x2F) (inLine : isLineTerminator ch = false)
    (met : returns (.inl (before ++ [ch], opensClass inClass ch)) { c with index := c.index + 1 }) :
    Meets (patternRound src (before, inClass)) c returns fails := by
  refine atEnd_ahead found (next_ahead found ?_)
  rw [if_neg other, if_neg (by simp [inLine])]
  cases inClass with
  | true => exact met
  | false =>
    rw [if_neg Bool.false_ne_true, if_neg (goesOn rfl)]
    exact met

theorem patternTail_meets (before : Text) (rounds : Nat) (found : src.ahead c.index = text)
    (enough : text.length < rounds) :
    Meets (iterate .exhausted (patternRound src) rounds (before, inClass)) c
      (fun whole d => ∃ pattern, (∀ other, Ends inClass text other ↔ other = pattern) ∧
        whole = before ++ pattern ∧ d = { c with index := c.index + pattern.length + 1 })
      (fun fault d => (∀ other, ¬Ends inClass text other) ∧ Refused src c fault d) := by
  induction rounds generalizing text before inClass c with
  | zero => omega
  | succ rounds ih =>
    have here (n : Nat) : Refused src c .unterminatedRegExp { c with index := c.index + n } :=
      .inl ⟨.inl rfl, _, Nat.le_add_right _ _, rfl⟩
    refine .into ?_
    cases text with
    | nil =>
      refine atEnd_ite (fun _ => ⟨?_, here 0⟩) fun inside => ?_
      · rintro other ⟨-, rest, same⟩
        cases other <;> cases same
      · have length := src.length_ahead c.index
        rw [found, length_nil] at length
        omega
    | cons ch text =>
      by_cases isBackslash : ch = 0x5C
      · -- A backslash takes whatever is behind it, unless the line ends there.
        subst isBackslash
        refine atEnd_ahead found (next_ahead found ?_)
        rw [if_pos rfl]
        cases text with
        | nil =>
          have took : c.Took src [0x5C] [] { c with index := c.index + 1 } := ⟨rfl, found⟩
          refine .into (took.missing ⟨?_, .inr ⟨rfl, took.lookup, _, found⟩⟩)
          rintro other ⟨completes, rest, same⟩
          cases other with
          | nil => cases same
          | cons first other =>
            obtain ⟨rfl, same⟩ := List.cons.inj same
            cases other <;> cases same
        | cons ch text =>
          have found' := ahead_cons found
          refine next_ahead found' (.ite (fun breaks => ⟨fun other ends => ?_, here 2⟩) fun inLine => ?_)
          · obtain ⟨_, -, inLine, -⟩ := ends_backslash.mp ends
            rw [breaks] at inLine
            cases inLine
          · have inLine : isLineTerminator ch = false := by simpa using inLine
            refine (ih (c := { c with index := c.index + 2 }) _ (ahead_cons found')
              (by simp at enough; omega)).mono ?_ ?_
            · rintro whole d ⟨pattern, only, rfl, rfl⟩
              refine ⟨0x5C :: ch :: pattern, fun other => ?_, by simp, ?_⟩
              · simp [ends_backslash, inLine, only]
              · simp only [length_cons]
                congr 2
                omega
            · rintro fault d ⟨none, refused⟩
              exact ⟨by simp [ends_backslash, none], refused.skip⟩
      by_cases ended : inClass = false ∧ ch = 0x2F
      · obtain ⟨rfl, rfl⟩ := ended
        refine atEnd_ahead found (next_ahead found ?_)
        refine ⟨[], fun other => ⟨fun ends => ?_, ?_⟩, by simp, rfl⟩
        · obtain ⟨completes, rest, same⟩ := ends
          cases other with
          | nil => rfl
          | cons first other =>
            obtain ⟨rfl, -⟩ := List.cons.inj same
            exact absurd rfl (((completes_char (by decide)).mp completes).1 rfl)
        · rintro rfl
          exact ⟨.nil, text, rfl⟩
      have goesOn : inClass = false → ch ≠ 0x2F := fun outside isSlash => ended ⟨outside, isSlash⟩
      cases breaks : isLineTerminator ch with
      | true =>
        refine atEnd_ahead found (next_ahead found ?_)
        rw [if_neg isBackslash, if_pos breaks]
        exact ⟨by simp [ends_char isBackslash goesOn, breaks], here 1⟩
      | false =>
        refine patternRound_char found isBackslash goesOn breaks ?_
        refine (ih (c := { c with index := c.index + 1 }) _ (ahead_cons found)
          (by simp at enough; omega)).mono ?_ ?_
        · rintro whole d ⟨pattern, only, rfl, rfl⟩
          refine ⟨ch :: pattern, fun other => ?_, by simp, ?_⟩
          · simp [ends_char isBackslash goesOn, breaks, only]
          · simp only [length_cons]
            congr 2
            omega
        · rintro fault d ⟨none, refused⟩
          exact ⟨by simp [ends_char isBackslash goesOn, none], refused.skip⟩

/-! ### Flags -/

theorem unescaped_cons (other : ch ≠ 0x5C) : Unescaped (ch :: flags) rest ↔ Unescaped flags rest := by
  constructor
  · exact fun unescaped before after same => unescaped (ch :: before) after (congrArg (ch :: ·) same)
  · intro unescaped before after same
    cases before with
    | nil => exact absurd (List.cons.inj same).1 other
    | cons _ before => exact unescaped before after (List.cons.inj same).2

theorem unescaped_backslash : Unescaped (0x5C :: flags) rest ↔ flags = [] ∧ rest = [] := by
  constructor
  · exact fun unescaped => unescaped [] flags rfl
  · rintro ⟨rfl, rfl⟩ before after same
    cases before with
    | nil => exact ⟨(List.cons.inj same).2.symm, rfl⟩
    | cons _ before => cases before <;> cases same

theorem refuseEscape_fails {α : Type} {returns : α → Cursor → Prop}
    (found : src.ahead c.index = ch :: text) : Meets (refuseEscape src) c returns
      (fun fault d => fault = .illegal ∧ ∃ j, c.index ≤ j ∧ d = { c with index := j }) := by
  refine current_ahead found (.ite (fun _ => .modify_bind (.get_bind ?_)) fun _ => ⟨rfl, _, Nat.le_refl _, rfl⟩)
  have took : c.Took src [ch] text { c with index := c.index + 1 } := ⟨rfl, found⟩
  obtain ⟨digits, rest, rfl, all, ended⟩ := Text.exists_digits isHexDigit 4 text
  refine .into (Escape.hexDigits_meets all ended took fun e took' => ?_)
  split
  · exact ⟨rfl, _, Nat.le_add_right _ _, took'.cursor⟩
  · refine .modify_bind ⟨rfl, c.index + 1, Nat.le_succ _, ?_⟩
    rw [took'.cursor]

def flagsRound (src : Source) (flags : Text) : ScanM (Text ⊕ Text) := do
  if ← atEnd src then pure (.inr flags)
  else do
    let c ← current src
    if isIdentifierPart c then do
      skip 1
      if c = 0x5C then do
        if ← atEnd src then pure (.inl (flags ++ [c])) else refuseEscape src
      else pure (.inl (flags ++ [c]))
    else pure (.inr flags)

theorem scanFlags_meets (before : Text) (rounds : Nat) (found : src.ahead c.index = flags ++ rest)
    (named : ∀ ch ∈ flags, isIdentifierPart ch = true) (stops : Text.Stops isIdentifierPart rest)
    (enough : flags.length < rounds) :
    Meets (iterate .exhausted (flagsRound src) rounds before) c
      (fun whole d => Unescaped flags rest ∧ whole = before ++ flags ∧
        d = { c with index := c.index + flags.length })
      (fun fault d => ¬Unescaped flags rest ∧ Refused src c fault d) := by
  induction flags generalizing c before rounds with
  | nil =>
    obtain ⟨rounds, rfl⟩ := Nat.exists_eq_succ_of_ne_zero (Nat.ne_of_gt enough)
    have none : Unescaped [] rest := fun before after same => by cases before <;> cases same
    refine .into (atEnd_ite (fun _ => ⟨none, by simp, rfl⟩) fun inside => ?_)
    obtain ⟨ch, more, ahead⟩ := exists_ahead inside
    obtain rfl : rest = ch :: more := found.symm.trans ahead
    refine current_ahead ahead ?_
    rw [if_neg (by simp [stops ch more rfl])]
    exact ⟨none, by simp, rfl⟩
  | cons ch flags ih =>
    obtain ⟨rounds, rfl⟩ := Nat.exists_eq_succ_of_ne_zero (Nat.ne_zero_of_lt enough)
    have found' := ahead_cons found
    have more (ch' : CodePoint) (member : ch' ∈ flags) := named ch' (mem_cons_of_mem _ member)
    have onward := ih (c := { c with index := c.index + 1 }) (before ++ [ch]) rounds found' more
      (by simp at enough; omega)
    refine .into (atEnd_ahead found (current_ahead found ?_))
    rw [if_pos (named ch mem_cons_self)]
    refine .modify_bind (.ite (fun isBackslash => ?_) fun other => ?_)
    · -- A backslash is let pass where the source ends with it.
      subst isBackslash
      rw [unescaped_backslash]
      refine atEnd_ite (fun ended => ?_) fun inside => ?_
      · have length := src.length_ahead (c.index + 1)
        have ended : src.size ≤ c.index + 1 := ended
        rw [found', Nat.sub_eq_zero_of_le ended, length_eq_zero_iff] at length
        obtain ⟨rfl, rfl⟩ := append_eq_nil_iff.mp length
        refine onward.mono ?_ fun _ _ failed => absurd ?_ failed.1
        · rintro whole d ⟨-, rfl, rfl⟩
          exact ⟨⟨rfl, rfl⟩, by simp, rfl⟩
        · exact fun before after same => by cases before <;> cases same
      · obtain ⟨next, behind, ahead⟩ := exists_ahead inside
        refine (refuseEscape_fails ahead).mono (fun _ _ never => never) ?_
        rintro fault d ⟨rfl, j, further, rfl⟩
        refine ⟨?_, .inl ⟨.inr rfl, j, Nat.le_trans (Nat.le_succ _) further, rfl⟩⟩
        rintro ⟨rfl, rfl⟩
        cases found'.symm.trans ahead
    · refine onward.mono ?_ ?_
      · rintro whole d ⟨unescaped, rfl, rfl⟩
        refine ⟨(unescaped_cons other).mpr unescaped, by simp, ?_⟩
        simp only [length_cons]
        congr 2
        omega
      · rintro fault d ⟨escaped, refused⟩
        exact ⟨mt (unescaped_cons other).mp escaped, refused.skip⟩

/-! ### The literal -/

/-- What is read at a slash: the only literal that is spelled there, or none is. -/
theorem scan_meets (slash : src.ahead c.index = 0x2F :: text) : Meets (scan src) c
    (fun r d => ∃ pattern flags rest, Spelled pattern flags rest ∧ r = ofParts pattern flags c.index ∧
      c.Took src (delimited pattern ++ flags) rest d ∧ ∀ other, Ends false text other ↔ other = pattern)
    (fun fault d => (∀ pattern flags rest, Spelled pattern flags rest →
      src.ahead c.index ≠ delimited pattern ++ flags ++ rest) ∧ Refused src c fault d) := by
  have found := ahead_cons slash
  have start : c.Took src [0x2F] text { c with index := c.index + 1 } := ⟨rfl, slash⟩
  refine .get_bind (.into (current_ahead slash ?_))
  rw [if_pos rfl]
  refine .modify_bind ((patternTail_meets [] _ found ?_).mono ?_ ?_)
  · have length := src.length_ahead (c.index + 1)
    rw [found] at length
    omega
  · rintro pattern d ⟨_, only, rfl, rfl⟩
    obtain ⟨completes, behind, rfl⟩ := (only pattern).mpr rfl
    obtain ⟨flags, rest, rfl, named, stops⟩ := Text.exists_span isIdentifierPart behind
    have took : c.Took src (delimited pattern) (flags ++ rest)
        { c with index := c.index + 1 + pattern.length + 1 } := by
      refine ⟨?_, by simpa [delimited] using slash⟩
      simp only [delimited, length_append, length_cons, length_nil]
      congr 2
      omega
    have bound := src.length_ahead (c.index + 1 + pattern.length + 1)
    rw [took.ahead, length_append] at bound
    refine .into ((scanFlags_meets [] _ took.ahead named stops (by omega)).mono ?_ ?_)
    · rintro flags d ⟨unescaped, rfl, rfl⟩
      refine .get_bind ⟨pattern, flags, rest, ⟨completes, named, stops, unescaped⟩, ?_, took.append, only⟩
      have slice := took.append.slice
      have stop := took.append.index_eq
      dsimp only at slice stop ⊢
      rw [slice, stop]
      rfl
    · rintro fault d ⟨escaped, refused⟩
      refine ⟨fun pattern' flags' rest' spelled same => escaped ?_, refused.skip.skip.skip⟩
      have same' : pattern ++ 0x2F :: (flags ++ rest) = pattern' ++ 0x2F :: (flags' ++ rest') := by
        simpa [delimited, slash] using same
      obtain rfl := (only pattern').mp ⟨spelled.pattern, _, same'⟩
      have behind : flags ++ rest = flags' ++ rest' := by simpa using same'
      obtain ⟨rfl, rfl⟩ := Text.span_unique behind named stops spelled.named spelled.stops
      exact spelled.unescaped
  · rintro fault d ⟨none, refused⟩
    refine ⟨fun pattern flags rest spelled same => none pattern ⟨spelled.pattern, flags ++ rest, ?_⟩, refused.skip⟩
    simpa [delimited, slash] using same

theorem scan_reads (spelled : Spelled pattern flags rest)
    (found : src.ahead c.index = delimited pattern ++ flags ++ rest) :
    scan src c = .ok (ofParts pattern flags c.index)
      { c with index := c.index + (delimited pattern ++ flags).length } := by
  have slash : src.ahead c.index = 0x2F :: (pattern ++ 0x2F :: (flags ++ rest)) := by
    simpa [delimited] using found
  have met := scan_meets slash
  cases run : scan src c with
  | ok r d =>
    obtain ⟨pattern', flags', rest', spelled', rfl, took, only⟩ := met.of_ok run
    obtain rfl := (only pattern).mp ⟨spelled.pattern, _, rfl⟩
    have behind : flags' ++ rest' = flags ++ rest := by simpa [delimited, slash] using took.found.symm
    obtain ⟨rfl, rfl⟩ := Text.span_unique behind spelled'.named spelled'.stops spelled.named spelled.stops
    rw [took.cursor]
  | error fault d => exact absurd found ((met.of_error run).1 pattern flags rest spelled)

theorem ClassItems.inLine {items : Text} (inside : ClassItems items) :
    ∀ ch ∈ items, isLineTerminator ch = false := by
  induction inside with
  | nil => exact nofun
  | char _ inLine _ ih => exact forall_mem_cons.mpr ⟨inLine, ih⟩
  | escape inLine _ ih =>
    exact forall_mem_cons.mpr ⟨by decide, forall_mem_cons.mpr ⟨inLine, ih⟩⟩

theorem IsPattern.inLine (isPattern : IsPattern pattern) : ∀ ch ∈ pattern, isLineTerminator ch = false := by
  induction isPattern with
  | nil => exact nofun
  | char _ inLine _ ih => exact forall_mem_cons.mpr ⟨inLine, ih⟩
  | escape inLine _ ih =>
    exact forall_mem_cons.mpr ⟨by decide, forall_mem_cons.mpr ⟨inLine, ih⟩⟩
  | charClass inside _ ih =>
    refine forall_mem_cons.mpr ⟨by decide, forall_mem_append.mpr ⟨inside.inLine, ?_⟩⟩
    exact forall_mem_cons.mpr ⟨by decide, ih⟩

theorem delimited_inLine (isPattern : IsPattern pattern) :
    ∀ ch ∈ delimited pattern, isLineTerminator ch = false := by
  refine forall_mem_cons.mpr ⟨by decide, forall_mem_append.mpr ⟨isPattern.inLine, ?_⟩⟩
  decide

theorem Spelled.followed {next next' : CodePoint} {more : Text} (spelled : Spelled pattern flags (next :: rest))
    (outside : isIdentifierPart next' = false) : Spelled pattern flags (next' :: more) where
  pattern := spelled.pattern
  named := spelled.named
  stops := Text.stops_cons outside
  unescaped before after same := absurd (spelled.unescaped before after same).2 (cons_ne_nil _ _)

end EcmaScript.RegExp
