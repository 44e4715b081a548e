import EcmaScript.Proofs.Prologue

/-!
Programs one after another. Between two programs stands what every program is followed by, on a line of
its own, so that the first one ends there as it does alone and the second one begins as it does alone.
-/

namespace EcmaScript

open Parse Grammar Source

/-! ### Layout between two programs -/

namespace Layout

open Scan Character

variable {src : Source} {c : Cursor} {text rest : Text} {fails : ScanFault → Cursor → Prop}

theorem skipLine_lineFeed {returns : Unit → Cursor → Prop}
    (found : src.ahead c.index = text ++ 0x0A :: rest)
    (sameLine : ∀ ch ∈ text, isLineTerminator ch = false) (met : returns ()
      { c with
        index := c.index + text.length + 1
        lineNumber := c.lineNumber + 1
        lineStart := c.index + text.length + 1
        lineBreak := some true }) : Meets (skipLine src) c returns fails := by
  refine repeated_meets (fun _ d => ∃ left, src.ahead d.index = left ++ 0x0A :: rest ∧
    (∀ ch ∈ left, isLineTerminator ch = false) ∧ d.index + left.length = c.index + text.length ∧
    d = { c with index := d.index }) ?_ ?_ ⟨text, found, sameLine, rfl, rfl⟩
  · rintro _ d ⟨left, ahead, -⟩
    cases left <;> exact Nat.le_of_lt (lt_size_of_ahead ahead)
  · rintro _ d ⟨left, ahead, sameLine, place, moved⟩
    cases left with
    | nil =>
      refine atEnd_ahead ahead (next_ahead ahead ?_)
      rw [if_pos (by decide)]
      rw [List.length_nil, Nat.add_zero] at place
      rw [← place] at met
      rw [moved]
      exact met
    | cons ch left =>
      refine atEnd_ahead ahead (next_ahead ahead ?_)
      rw [if_neg (by simp [sameLine ch List.mem_cons_self])]
      refine ⟨⟨left, ahead_cons ahead, fun other member => ?_, ?_, by rw [moved]⟩,
        Nat.lt_succ_self _⟩
      · exact sameLine other (List.mem_cons_of_mem _ member)
      · rw [List.length_cons] at place
        show d.index + 1 + left.length = c.index + text.length
        omega

theorem piece_commentLine {fresh : Bool} {returns : Bool ⊕ Unit → Cursor → Prop}
    (found : src.ahead c.index = 0x2F :: 0x2F :: (text ++ 0x0A :: rest))
    (sameLine : ∀ ch ∈ text, isLineTerminator ch = false) (met : returns (.inl true)
      { c with
        index := c.index + 2 + text.length + 1
        lineNumber := c.lineNumber + 1
        lineStart := c.index + 2 + text.length + 1
        lineBreak := some true }) : Meets (piece src fresh) c returns fails := by
  refine piece_slashes found ?_
  exact skipLine_lineFeed (ahead_cons (ahead_cons found)) sameLine met

end Layout

/-! ### From one program to the next -/

theorem Lexeme.Tightens.else_iff {t u : Lexeme} (tightens : t.Tightens u) :
    t = .keyword .else_ ↔ u = .keyword .else_ := by
  rcases tightens with rfl | ⟨word, member, rfl, rfl⟩
  · rfl
  · constructor
    · rintro ⟨⟩
      revert member
      decide
    · nofun

/-- What stands between two programs: what is put after every program, and a line feed. -/
abbrev juncture : Text :=
  Text.ofString " \n ; //END\n"

theorem joined_toList (a b : Text) : (Parser.sourceOf (a ++ juncture ++ b)).toList =
    a ++ (Parser.sentinel ++ 0x0A :: (b ++ Parser.sentinel)) := by
  have split : juncture = Parser.sentinel ++ [0x0A] := by decide
  simp [Source.ofText, split]

theorem joined_ahead (a b : Text) : (Parser.sourceOf (a ++ juncture ++ b)).ahead (a.length + 4) =
    0x20 :: 0x2F :: 0x2F :: ([0x45, 0x4E, 0x44] ++ 0x0A :: (b ++ Parser.sentinel)) := by
  rw [ahead_add, Source.ahead, joined_toList, List.drop_left]
  rfl

def Window.tail (before code : Text) (outer : List Brace) : Window :=
  .shared [] code before [] (Parser.sourceOf (before ++ code)) (by simp [Source.ofText]) outer

section

variable {settings : Settings} {a b before : Text} {p q : Parser} {t : Token} {outer : List Brace}

/-- At the start of a line the layout ends in front of the first token of the program behind it. -/
theorem pieces_tail {last : Mark} {between after c : Cursor} {rounds : Nat}
    (layout : Layout.skipAll (Parser.sourceOf b)
      { (Parser.begin { settings } b).cursor with lineBreak := some false } = .ok () between)
    (reads : Lexer.token (Parser.sourceOf b) false (some between.lineStart) between = .ok t after)
    (coherent : Coherent (Parser.sourceOf b)
      ((Parser.begin { settings } b).fetched last between after t) t)
    (source : q.source = some (Parser.sourceOf (before ++ b))) (here : c.index = before.length)
    (braces : c.braces = some outer) :
    Meets (iterate .exhausted (Layout.piece (Parser.sourceOf (before ++ b))) rounds true) c
      (fun _ => Pairing.Copies (.tail before b outer) False false t
        ((Parser.begin { settings } b).fetched last between after t) after q)
      (only .exhausted) := by
  have abreast : (Window.tail before b outer).Abreast False
      { (Parser.begin { settings } b).cursor with lineBreak := some false } c := by
    refine ⟨⟨Nat.zero_le _, ?_, ⟨[], rfl, ?_⟩⟩, False.elim⟩
    · show 0 + before.length = c.index + 0
      omega
    · exact braces.trans (congrArg some (List.append_nil outer).symm)
  have pieces : iterate .exhausted (Layout.piece (Window.tail before b outer).left)
      ((Parser.sourceOf b).size + 1) true
      { (Parser.begin { settings } b).cursor with lineBreak := some false } = .ok () between := layout
  exact Pairing.pieces_copy coherent pieces reads abreast (Nat.zero_le _) source

/-- In front of the second program, whose first token is `t` where it stands alone. -/
structure Second (a b : Text) (p : Parser) (t : Token) (q : Parser) : Prop where
  separate : ∃ u, q.lookahead = some u ∧ u.lexeme ≠ .keyword .else_
  facing : q.isStrict = false → ∃ outer u, (Window.tail (a ++ juncture) b outer).Facing False p q t u

theorem lex_second (peeked : peek (Parser.begin { settings } b) = .ok () p)
    (coherent : Coherent (Parser.sourceOf b) p t) (notElse : t.lexeme ≠ .keyword .else_)
    (source : q.source = some (Parser.sourceOf (a ++ juncture ++ b)))
    (here : q.cursor.index = a.length + 4) (braces : q.cursor.braces = some outer) :
    Meets lex q (fun _ q' => Second a b p t q') (only .exhausted) := by
  obtain ⟨between, after, t', layout, reads, rfl⟩ := (peek_ok_iff rfl).mp peeked
  obtain rfl : t' = t := Option.some.inj coherent.lookahead
  have blank := joined_ahead a b
  rw [← here] at blank
  have slashes := ahead_cons blank
  have inside := lt_size_of_ahead slashes
  obtain ⟨rounds, enough⟩ : ∃ rounds, (Parser.sourceOf (a ++ juncture ++ b)).size + 1 = rounds + 1 + 1 :=
    ⟨(Parser.sourceOf (a ++ juncture ++ b)).size - 1, by omega⟩
  refine lex_spent source ?_
  refine .modify_bind (.get_bind ?_)
  rw [Scan.repeated, enough]
  refine .into (Layout.piece_blank blank ?_)
  refine .into (Layout.piece_commentLine slashes (by decide) ?_)
  -- Behind the comment both sides are at the start of a line.
  have length : (a ++ juncture).length = a.length + 11 := by rw [List.length_append]; rfl
  refine (pieces_tail (q := q.giving) layout reads coherent source ?_ (by exact braces)).imp ?_
  · show q.cursor.index + 1 + 2 + 3 + 1 = (a ++ juncture).length
    omega
  intro _ between' copy
  refine copy.imp fun u cursor' met => ⟨⟨u, rfl, fun isElse => ?_⟩, fun sloppy => ⟨outer, u, met.2 ?_ _⟩⟩
  · rcases met.1.similar with tightens | tightens
    · exact notElse (tightens.else_iff.mpr isElse)
    · exact notElse (tightens.else_iff.mp isElse)
  · exact met.1.tighter fun strict => by cases sloppy.symm.trans strict

/-- The first program where it stands in front of the second one. -/
def junction (peeked : peek (Parser.begin { settings } b) = .ok () p)
    (coherent : Coherent (Parser.sourceOf b) p t) (notElse : t.lexeme ≠ .keyword .else_) : Pairing :=
  { Window.shared [] a [] (0x0A :: (b ++ Parser.sentinel)) (Parser.sourceOf (a ++ juncture ++ b))
      ((joined_toList a b).trans (List.append_assoc ..).symm) [] with
    beyond := Second a b p t
    stays := fun second still sloppy =>
      { separate := still.lookahead ▸ second.separate
        facing := fun isSloppy => by
          obtain ⟨outer, u, facing⟩ := second.facing (sloppy isSloppy)
          exact ⟨outer, u, facing.still (.refl _) still id⟩ }
    -- Whatever braces the first program leaves open stay below those of the second one.
    onward := fun source here ⟨_, braces⟩ => lex_second peeked coherent notElse source here braces
    separate := Second.separate }

/-- A program behind other text adds its statements to those that have been read. -/
theorem tail_onto {u : Token} {body : List Node} {p' : Parser} {rounds : Nat}
    (sloppy : Sloppy settings b body p p' rounds)
    (facing : (Window.tail before b outer).Facing False p q t u) (context : q.context = some {})
    (settled : q.settings = settings) (notStrict : q.isStrict = false)
    (state : List Node × Option (Option Token)) (rounds' : Nat) :
    Meets (scriptFrom (readerFor (before ++ b)) refuseOctal rounds' state) q
      (fun found _ => found = state.1 ++ body) (only .exhausted) := by
  have place : (before ++ b).length + 0 = b.length + before.length := by
    rw [List.length_append, Nat.add_zero, Nat.add_comm]
  let w := Pairing.toEnd (Window.tail before b outer) (.ofText _) place
  have near : w.Near False .loose p q :=
    ⟨⟨sloppy.begun.1.trans context.symm, sloppy.begun.2.trans settled.symm,
      (fun strict => nomatch notStrict.symm.trans strict), False.elim, False.elim⟩, t, u, facing⟩
  have scripting : w.Scripting False (fun l l' => l' = state.1 ++ l) ([], some none) p state q :=
    ⟨(List.append_nil _).symm, fun _ _ _ _ impossible => impossible.elim, .inl ⟨near, nofun⟩⟩
  have snoc {l l' : List Node} (item : Node) (same : l' = state.1 ++ l) :
      l' ++ [item] = state.1 ++ (l ++ [item]) := by rw [same, List.append_assoc]
  refine Pairing.script_onto (Pairing.readerOf_mates _ _) snoc (fun _ _ => True)
    (fun l _ found _ => found = state.1 ++ l) refuseStrict_calm (fun _ => .throw) ?_ scripting
    sloppy.script trivial rounds'
  intro l state' p q same parted _ rounds
  exact (Parser.AtEnd.script_ends parted.beyond rounds state').imp fun found _ ends => ends.trans same

/-- Two programs without the directive of strict code, put one after another, are read as their
statements one after another. -/
theorem parse_joined {first second : Node} (parsed : parse settings a = .ok first)
    (parsed' : parse settings b = .ok second) (sloppy : Text.ofString "use strict" ∉ prologue settings a)
    (sloppy' : Text.ofString "use strict" ∉ prologue settings b) :
    ∃ body body', first = .program body ∧ second = .program body' ∧
      parse settings (a ++ Text.ofString " \n ; //END\n" ++ b) = .ok (.program (body ++ body')) := by
  obtain ⟨_, _, body, -, -, rfl⟩ := parse_ok parsed
  obtain ⟨_, _, body', -, -, rfl⟩ := parse_ok parsed'
  refine ⟨body, body', rfl, rfl, ?_⟩
  obtain ⟨p, p', rounds, first⟩ := Sloppy.of_parse parsed sloppy
  obtain ⟨q, q', rounds', second⟩ := Sloppy.of_parse parsed' sloppy'
  obtain ⟨⟨t, coherent⟩, -, -, -, -⟩ := (peek_meets (.of_begin _ b)).of_ok second.peeked
  -- A program that is read does not begin with `else`, so the first one cannot go on with the second one.
  let w := junction (a := a) second.peeked coherent (script_not_else coherent second.script)
  have alike : Alike .loose (Parser.begin { settings } a) (Parser.begin { settings } (a ++ juncture ++ b)) :=
    ⟨rfl, rfl, id, False.elim, False.elim⟩
  have aligned : w.Aligned (Parser.begin { settings } a).cursor
      (Parser.begin { settings } (a ++ juncture ++ b)).cursor :=
    ⟨Nat.zero_le _, rfl, [], rfl, rfl⟩
  have peeks := Pairing.peek_aligned alike (.of_begin _ a) rfl aligned (Nat.zero_le _) Iff.rfl
  suffices read : ∃ found, parse settings (a ++ juncture ++ b) = .ok (.program found) ∧
      found = body ++ body' by
    obtain ⟨_, joined, rfl⟩ := read
    exact joined
  refine parse_of_meets ((peeks () p first.peeked).imp fun _ r near => scriptBody_meets fun rounds => ?_)
  have near : w.Near False .loose p r := near.loosen nofun nofun
  have scripting : w.Scripting False (fun l l' => l' = l) ([], some none) p ([], some none) r :=
    ⟨rfl, fun _ _ _ _ impossible => impossible.elim, .inl ⟨near, nofun⟩⟩
  refine Pairing.script_onto (Pairing.readerOf_mates _ _) (fun item same => by rw [same])
    (fun _ p => p.context = some {} ∧ p.strict = some false ∧ p.settings = settings)
    (fun l _ found _ => found = l ++ body') refuseStrict_calm (fun _ => .throw) ?_ scripting
    first.script ⟨first.context, first.strict, first.settings⟩ rounds
  -- Where the first program ends the second one takes over, in code that is not strict.
  rintro l state' p r same parted ⟨context, strict, settled⟩ rounds
  have notStrict : r.isStrict = false := by
    refine Bool.eq_false_iff.mpr fun isStrict => ?_
    have stricter := parted.strict isStrict
    simp [Parser.isStrict, strict] at stricter
  obtain ⟨outer, u, facing⟩ := parted.beyond.facing notStrict
  have onto := tail_onto second facing (parted.context.symm.trans context)
    (parted.settings.symm.trans settled) notStrict state' rounds
  exact onto.imp fun found _ joined => by rw [joined, same]

end

theorem loops_parsed : (match parse {} (Text.ofString "do x; while (y)\nwhile (z)"),
      parse {} (Text.ofString "'a'; ({b})\n--> c") with
    | .ok (.program [_, _]), .ok (.program [_, _]) => true
    | _, _ => false) = true := by decide +kernel

/-- The first program ends in a loop without a body of its own, and the second one begins with a
directive: there the empty statement is the body, and the directive is one no longer. -/
theorem parse_joined_loop :
    ∃ body body', parse {} (Text.ofString "do x; while (y)\nwhile (z)") = .ok (.program body) ∧
      parse {} (Text.ofString "'a'; ({b})\n--> c") = .ok (.program body') ∧
      body.length = 2 ∧ body'.length = 2 ∧
      parse {} (Text.ofString "do x; while (y)\nwhile (z)" ++ Text.ofString " \n ; //END\n" ++
        Text.ofString "'a'; ({b})\n--> c") = .ok (.program (body ++ body')) := by
  have shape := loops_parsed
  split at shape
  case h_2 => cases shape
  next d w s e parsed parsed' =>
    obtain ⟨body, body', same, same', joined⟩ :=
      parse_joined parsed parsed' (by decide +kernel) (by decide +kernel)
    cases same
    cases same'
    exact ⟨_, _, parsed, parsed', rfl, rfl, joined⟩

end EcmaScript
