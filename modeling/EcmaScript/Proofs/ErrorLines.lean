import EcmaScript.Proofs.LineCounts
import EcmaScript.Proofs.Positions
import EcmaScript.Proofs.Warrants

/-!
The lines of complaints. A complaint shows the line of a token, the line of the cursor while a token is
being read, or else the line where the token before the lookahead ended, a register that the end of a
statement sets to where the lookahead starts. All of these are lines of the source: this is a warrant, since
a fetch keeps the count of lines, also where it fails. So the line of every complaint about a program is a
line of the program, or the one that is put behind it.
-/

namespace EcmaScript

/-- All registers that a complaint may take its line from name lines of the source. A slash is on the line
where the lookahead starts, so that it can be read again. -/
structure Parser.Sited (src : Source) (p : Parser) : Prop where
  source : p.source = some src
  cursor : p.cursor.toMark.Counted src
  last : ∃ mark, p.last = some mark ∧ src.HasLine mark.lineNumber
  start : ∃ mark, p.start = some mark ∧ mark.Counted src ∧ ∀ token, p.lookahead = some token →
    token.IsSlash → p.cursor.lineNumber = mark.lineNumber

/-- What a fault says of lines. A feature that is not supported is reported with the line of the cursor. -/
def Fault.Sited (src : Source) (fault : Fault) (p : Parser) : Prop :=
  match fault with
  | .malformed line _ => ∃ n, line = some n ∧ src.HasLine n
  | .unsupported _ => src.HasLine p.cursor.lineNumber
  | _ => True

variable {α : Type} {src : Source} {p : Parser}

/-! ### Complaints -/

theorem Parser.Sited.troubleLine (sited : p.Sited src) : ∃ n, p.troubleLine = some n ∧ src.HasLine n := by
  unfold Parser.troubleLine
  split
  · exact ⟨_, rfl, sited.cursor.hasLine⟩
  · obtain ⟨mark, last, hasLine⟩ := sited.last
    exact ⟨mark.lineNumber, by simp [last], hasLine⟩

/-- A complaint about a token shows its line, for there is no line zero. -/
theorem complaint_sited {token : Token} (hasLine : src.HasLine token.lineNumber) (words : Option Text) :
    (p.complaint (some (.ofToken token)) words).Sited src p := by
  refine ⟨token.lineNumber, ?_, hasLine⟩
  simp [Culprit.ofToken, Nat.ne_of_gt hasLine.1]

theorem complaintHere_sited (last : ∃ mark, p.last = some mark ∧ src.HasLine mark.lineNumber)
    (words : Text) : (p.complaintHere words).Sited src p := by
  obtain ⟨mark, last, hasLine⟩ := last
  exact ⟨mark.lineNumber, by simp [last], hasLine⟩

theorem located_sited {fault : ScanFault} (scanning : p.scanning = some true)
    (stopped : Stopped src fault p.cursor)
    (last : fault = .templateOctal → ∃ mark, p.last = some mark ∧ src.HasLine mark.lineNumber) :
    (p.located fault).Sited src p := by
  have here : p.troubleLine = some p.cursor.lineNumber := by simp [Parser.troubleLine, scanning]
  rcases stopped with rfl | counted
  · trivial
  cases fault with
  | illegal | unterminatedRegExp => exact ⟨_, here, counted.hasLine⟩
  | templateOctal => exact complaintHere_sited (last rfl) _
  | pastEnd | noOpenBrace | noContext | notNumeric | notString | notRegExp | noNumber | exhausted =>
    trivial

/-! ### Fetching -/

namespace Parse

/-- The registers after a fetch, and the new lookahead. The token that only a target could hold is left
alone. -/
structure Refetched (src : Source) (p q : Parser) : Prop where
  sited : q.Sited src
  lookahead : ∀ token, q.lookahead = some token → src.HasLine token.lineNumber
  cover : q.coverInitialized = p.coverInitialized

/-- A token is read behind the layout into the registers of any parser for the source. -/
theorem fetch_sited (counted : p.cursor.toMark.Counted src) (strict : Bool) :
    Meets (Layout.skipAll src) { p.cursor with lineBreak := some false }
      (fun _ between => between.toMark.Counted src ∧
        Meets (Lexer.token src strict (some between.lineStart)) between (fun token cursor =>
          ∀ (q : Parser) (last : Mark), q.source = some src → src.HasLine last.lineNumber →
            Refetched src q (q.fetched last between cursor token)) (Stopped src))
      fun fault cursor => Stopped src fault cursor ∧ fault ≠ .templateOctal := by
  refine (Layout.skipAll_counts (by exact counted)).imp fun _ between counted' => ⟨counted', ?_⟩
  refine ((Lexer.token_counts strict _ counted').and_returns (Lexer.token_tracked _ _)).imp ?_
  rintro token cursor ⟨⟨hasLine, counted''⟩, tracked⟩ q last source lastLine
  refine ⟨⟨source, counted'', ⟨last, rfl, lastLine⟩, between.toMark, rfl, counted', ?_⟩, ?_, rfl⟩
  · rintro _ ⟨⟩ isSlash
    rcases isSlash with slash | slash <;> exact (tracked.inLine _ slash).1
  · rintro _ ⟨⟩
    exact hasLine

theorem lex_sited (source : p.source = some src) (counted : p.cursor.toMark.Counted src) :
    Meets lex p (fun _ q => Refetched src p q) (Fault.Sited src) := by
  refine (lex_iff source).mpr ((fetch_sited counted p.isStrict).mono ?_ fun _ _ stopped =>
    located_sited rfl stopped.1 fun isOctal => absurd isOctal stopped.2)
  rintro _ between ⟨-, reads⟩
  refine reads.mono (fun token cursor fetched => ?_) fun _ _ stopped =>
    located_sited rfl stopped fun _ => ⟨_, rfl, counted.hasLine⟩
  obtain ⟨sited, lookahead, cover⟩ := fetched p.giving p.cursor.toMark source counted.hasLine
  exact ⟨sited, lookahead, cover⟩

theorem peek_sited (source : p.source = some src) (counted : p.cursor.toMark.Counted src) :
    Meets peek p (fun _ q => Refetched src p q) (Fault.Sited src) := by
  refine (peek_iff source).mpr ((fetch_sited counted p.isStrict).mono ?_ fun _ _ stopped =>
    located_sited rfl stopped.1 fun isOctal => absurd isOctal stopped.2)
  rintro _ between ⟨counted', reads⟩
  exact reads.mono (fun token cursor fetched => fetched p _ source counted'.hasLine) fun _ _ stopped =>
    located_sited rfl stopped fun _ => ⟨_, rfl, counted'.hasLine⟩

/-- A slash that is read again: it is on the line of the cursor, so going back to it keeps the count. -/
theorem rescan_sited {token : Token} (sited : p.Sited src) (looked : p.lookahead = some token)
    (isSlash : token.IsSlash) : Meets rescan p (fun _ q => Refetched src p q) (Fault.Sited src) := by
  obtain ⟨mark, start, counted, sameLine⟩ := sited.start
  have moved : ({ p.cursor with index := mark.index } : Cursor).toMark.Counted src :=
    counted.forward (Nat.le_refl _) (sameLine token looked isSlash)
  have noted : startMark p = .ok mark p := startMark_ok_iff.mpr ⟨start, rfl⟩
  refine .into (.of_run noted (.modify_bind ?_))
  have read : Meets regExp { p with cursor := { p.cursor with index := mark.index } }
      (fun _ q => q.source = some src ∧ q.cursor.toMark.Counted src ∧
        q.coverInitialized = p.coverInitialized) (Fault.Sited src) := by
    refine (regExp_iff (by exact sited.source)).mpr ((Layout.skipAll_counts (by exact moved)).mono
      (fun _ between counted' => ?_) fun _ _ stopped =>
        located_sited rfl stopped.1 fun isOctal => absurd isOctal stopped.2)
    exact (RegExp.scan_counts counted').mono (fun _ _ counted'' => ⟨sited.source, counted'', rfl⟩)
      fun _ _ stopped => located_sited rfl stopped fun _ => sited.last
  apply read.bind
  rintro r q ⟨source, counted', cover⟩
  apply Meets.into
  apply Meets.bind (lex_sited source counted')
  intro _ q' fetched
  exact ⟨fetched.sited, fetched.lookahead, fetched.cover.trans cover⟩

end Parse

/-! ### The warrant -/

/-- Lines of the source are a warrant: they are kept by every fetch and cover all complaints. -/
def lineWarrant (src : Source) : Warrant where
  token t := src.HasLine t.lineNumber
  registers p := p.Sited src
  name _ := True
  fault := Fault.Sited src
  named _ _ := trivial
  noted _ hasLine := hasLine
  apart := by
    intro p q calm last _ sited
    refine ⟨calm.source.trans sited.source, calm.cursor ▸ sited.cursor, last ▸ sited.last, ?_⟩
    obtain ⟨mark, start, counted, sameLine⟩ := sited.start
    refine ⟨mark, calm.start.trans start, counted, fun token looked isSlash => ?_⟩
    -- A slash that was noted to be an operator was a slash before.
    obtain ⟨seen, looked', same⟩ := calm.token looked
    rw [calm.cursor]
    apply sameLine seen looked'
    rwa [same] at isSlash
  stricter sited := ⟨sited.source, sited.cursor, sited.last, sited.start⟩
  restored _ sited := ⟨sited.source, sited.cursor, sited.last, sited.start⟩
  relocated sited := by
    obtain ⟨mark, start, counted, sameLine⟩ := sited.start
    exact ⟨sited.source, sited.cursor, ⟨mark, start, counted.hasLine⟩, mark, start, counted, sameLine⟩
  lex := by
    intro p held
    apply (Parse.lex_sited held.registers.source held.registers.cursor).imp
    intro _ q fetched
    exact ⟨fetched.sited, fetched.lookahead, fetched.cover ▸ held.cover⟩
  rescan := by
    intro p token held looked isSlash
    apply (Parse.rescan_sited held.registers looked isSlash).imp
    intro _ q fetched
    exact ⟨fetched.sited, fetched.lookahead, fetched.cover ▸ held.cover⟩
  blames words _ hasLine := complaint_sited hasLine words
  complains words sited := complaintHere_sited sited.last words
  illegal _ sited := sited.troubleLine
  other := by
    intro p fault sited other
    cases fault with
    | malformed line text => exact absurd rfl (other line text)
    | unsupported feature => exact sited.cursor.hasLine
    | _ => trivial

/-! ### Programs -/

theorem Parser.begin_counted (p : Parser) (code : Text) :
    (p.begin code).cursor.toMark.Counted (Source.ofText (code ++ sentinel)) :=
  ⟨Nat.le_refl 1, Nat.le_refl _⟩

/-- However a program is refused, the line that is named is a line of the source. -/
theorem program_sited (p : Parser) (code : Text) :
    Meets (Grammar.deep Grammar.program) (p.begin code) (fun _ _ => True)
      (Fault.Sited (Source.ofText (code ++ Parser.sentinel))) := by
  refine .get_bind ?_
  apply Meets.bind (Parse.peek_sited rfl (p.begin_counted code))
  intro _ q fetched
  let w := lineWarrant (Source.ofText (code ++ Parser.sentinel))
  have held : w.Holds q := by
    refine ⟨fetched.sited, fetched.lookahead, ?_⟩
    rw [fetched.cover]
    nofun
  have reads (depth : Nat) := Discipline.scriptBody_upholds (d := w.discipline)
    (s := { context := {}, loose := true }) rfl (Discipline.readerOf_trusts depth depth) [] false q q
    ⟨rfl, held⟩
  exact Meets.bind (reads _) fun _ _ _ => trivial

/-- The line that is put behind a program is the only one besides its own. -/
theorem lineBreaks_sentinel (code : Text) :
    Text.lineBreaks (code ++ Parser.sentinel) = code.lineBreaks + 1 := by
  rw [Text.lineBreaks_append code (by decide)]
  rfl

/-- Every complaint about a program names a line: one of the program, or the one behind it. -/
theorem parse_error_line (settings : Settings) (code : Text) (line : Option Nat) (complaint : Text)
    (refused : parse settings code = .error (.malformed line complaint)) :
    ∃ n, line = some n ∧ 1 ≤ n ∧ n ≤ 2 + code.lineBreaks ∧ (Fault.malformed line complaint).message? =
        some (Text.ofString "Line " ++ Text.ofNat n ++ Text.ofString ": " ++ complaint) := by
  have sited := program_sited { settings } code
  have named : ∃ n, line = some n ∧ (Source.ofText (code ++ Parser.sentinel)).HasLine n := by
    unfold parse Parser.program at refused
    split at refused
    · cases refused
    case _ fault q run =>
      split at run
      · cases run
      -- An unsupported construct is blamed on the line that was reached.
      · case _ feature r fails =>
        cases run
        cases refused
        have reached : Fault.Sited _ (.unsupported feature) _ := sited.of_error fails
        exact ⟨_, rfl, reached⟩
      · case _ fault' r _ fails =>
        cases run
        cases refused
        exact sited.of_error fails
  obtain ⟨n, rfl, positive, bounded⟩ := named
  refine ⟨n, rfl, positive, ?_, rfl⟩
  have total := lineBreaks_sentinel code
  change n ≤ 1 + Text.lineBreaks (code ++ Parser.sentinel) at bounded
  omega

/-- The line behind the program is named where the program ends too early, and a carriage return with its
line feed is one line break. -/
theorem parse_error_line_behind : ∃ n, parse {} (Text.ofString "a\x0d\n(") =
        .error (.malformed (some n) (Text.ofString "Unexpected token ;")) ∧
      n = 2 + (Text.ofString "a\x0d\n(").lineBreaks ∧
      1 ≤ n ∧ n ≤ 2 + (Text.ofString "a\x0d\n(").lineBreaks := by
  have shape : (match parse {} (Text.ofString "a\x0d\n(") with
    | .error (.malformed line complaint) =>
      decide (line = some 3 ∧ complaint = Text.ofString "Unexpected token ;")
    | _ => false) = true := by decide +kernel
  split at shape
  case h_2 => cases shape
  next line complaint refused =>
    obtain ⟨rfl, rfl⟩ := of_decide_eq_true shape
    obtain ⟨n, named, positive, bounded, _⟩ := parse_error_line {} _ _ _ refused
    cases named
    exact ⟨3, refused, by decide +kernel, positive, bounded⟩

end EcmaScript
