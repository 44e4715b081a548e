import EcmaScript.Proofs.Shortcuts
import EcmaScript.Proofs.Termination

/-!
Operator precedence. A chain of operands with operators between them stands for one tree: the one in which
no operator has a looser one on its left, or one that is as loose as itself on its right. Precedence climbing
finds this tree by recursion; binary expressions are read with a stack and give the same tree. Main statement:
what is read as a binary expression is the tree of its operands and operators.
-/

namespace EcmaScript.Grammar

open Parse

/-! ### Trees of operators -/

/-- A tree that is put together out of operands. An operand can itself be a binary expression, one that
stands in parentheses. -/
inductive BinaryTree where
  | operand (node : Node)
  | join (operator : BinaryOperator) (left right : BinaryTree)

namespace BinaryTree

def toNode : BinaryTree → Node
  | operand node => node
  | join operator left right => .binaryExpression operator left.toNode right.toNode

def first : BinaryTree → Node
  | operand node => node
  | join _ left _ => left.first

/-- What follows the leftmost operand, from left to right: operators, each with the operand behind it. -/
def rest : BinaryTree → List (BinaryOperator × Node)
  | operand _ => []
  | join operator left right => left.rest ++ (operator, right.first) :: right.rest

/-- The operator that a joined tree was joined by. -/
def root? : BinaryTree → Option BinaryOperator
  | operand _ => none
  | join operator _ _ => some operator

/-- Operators on the left bind at least as tightly as the one above them, operators on the right bind more
tightly. -/
inductive Ordered : BinaryTree → Prop where
  | operand (node : Node) : Ordered (operand node)
  | join {operator : BinaryOperator} {left right : BinaryTree} (inLeft : Ordered left)
      (inRight : Ordered right)
      (atLeft : ∀ top ∈ left.root?, operator.precedence ≤ top.precedence)
      (atRight : ∀ top ∈ right.root?, operator.precedence < top.precedence) :
      Ordered (join operator left right)

/-- Every operator of an ordered tree binds at least as tightly as its root. -/
theorem Ordered.root_le {tree : BinaryTree} (ordered : tree.Ordered) {least : Nat}
    (atRoot : ∀ top ∈ tree.root?, least ≤ top.precedence) :
    ∀ entry ∈ tree.rest, least ≤ entry.1.precedence := by
  induction ordered generalizing least with
  | operand node => simp [rest]
  | @join operator left right _ _ atLeft atRight inLeft inRight =>
    have here : least ≤ operator.precedence := atRoot operator rfl
    intro entry member
    simp only [rest, List.mem_append, List.mem_cons] at member
    rcases member with member | rfl | member
    · exact Nat.le_trans here (inLeft atLeft entry member)
    · exact here
    · exact Nat.le_trans here (Nat.le_of_lt (inRight atRight entry member))

/-- The place of an operator that binds more loosely than all behind it, and no tighter than those before it,
is determined. -/
theorem split_unique {before before' after after' : List (BinaryOperator × Node)}
    {entry entry' : BinaryOperator × Node} (same : before ++ entry :: after = before' ++ entry' :: after')
    (ahead : ∀ other ∈ before, entry.1.precedence ≤ other.1.precedence)
    (behind : ∀ other ∈ after, entry.1.precedence < other.1.precedence)
    (ahead' : ∀ other ∈ before', entry'.1.precedence ≤ other.1.precedence)
    (behind' : ∀ other ∈ after', entry'.1.precedence < other.1.precedence) :
    before = before' ∧ entry = entry' ∧ after = after' := by
  rcases List.append_eq_append_iff.mp same with ⟨between, rfl, split⟩ | ⟨between, rfl, split⟩
  · cases between with
    | nil => simpa [eq_comm] using split
    | cons other between =>
      -- The second operator stands behind the first, which stands before it.
      obtain ⟨rfl, rfl⟩ := List.cons.inj split
      have tighter := behind entry' (by simp)
      have looser := ahead' entry (by simp)
      omega
  · cases between with
    | nil => simpa [eq_comm] using split
    | cons other between =>
      obtain ⟨rfl, rfl⟩ := List.cons.inj split
      have tighter := behind' entry (by simp)
      have looser := ahead entry' (by simp)
      omega

/-- There is at most one ordered tree for a chain of operands and operators. -/
theorem Ordered.unique {tree other : BinaryTree} (ordered : tree.Ordered) (ordered' : other.Ordered)
    (first : tree.first = other.first) (rest : tree.rest = other.rest) : tree = other := by
  induction ordered generalizing other with
  | operand node =>
    cases ordered' with
    | operand node' => exact congrArg BinaryTree.operand first
    | join => simp [BinaryTree.rest] at rest
  | @join operator left right orderedLeft orderedRight atLeft atRight inLeft inRight =>
    cases ordered' with
    | operand node' => simp [BinaryTree.rest] at rest
    | @join operator' left' right' orderedLeft' orderedRight' atLeft' atRight' =>
      obtain ⟨before, entry, after⟩ := split_unique rest (orderedLeft.root_le atLeft)
        (orderedRight.root_le atRight) (orderedLeft'.root_le atLeft') (orderedRight'.root_le atRight')
      obtain ⟨rfl, second⟩ := Prod.mk.inj entry
      rw [inLeft orderedLeft' first before, inRight orderedRight' second after]

/-- Precedence climbing. The tree is joined with what follows, as long as the operators bind at least as
tightly as `least`; behind each operator comes a tree of those that bind more tightly. What is left over is
returned with the tree. -/
def climb (least : Nat) (left : BinaryTree) (entries : List (BinaryOperator × Node)) :
    BinaryTree × { later : List (BinaryOperator × Node) // later.length ≤ entries.length } :=
  match entries with
  | [] => (left, ⟨[], Nat.le_refl _⟩)
  | (operator, node) :: others =>
    if least ≤ operator.precedence then
      let (right, ⟨later, shorter⟩) := climb (operator.precedence + 1) (operand node) others
      let (whole, ⟨last, shorter'⟩) := climb least (join operator left right) later
      (whole, ⟨last, Nat.le_succ_of_le (Nat.le_trans shorter' shorter)⟩)
    else (left, ⟨(operator, node) :: others, Nat.le_refl _⟩)
termination_by entries.length

def ofChain (first : Node) (entries : List (BinaryOperator × Node)) : BinaryTree :=
  (climb 0 (operand first) entries).1

variable {least : Nat} {left : BinaryTree} {operator : BinaryOperator} {node : Node}
variable {others : List (BinaryOperator × Node)}

theorem climb_stop (loose : operator.precedence < least) :
    (climb least left ((operator, node) :: others)).1 = left ∧
      (climb least left ((operator, node) :: others)).2.1 = (operator, node) :: others := by
  rw [climb, if_neg (Nat.not_le.mpr loose)]
  exact ⟨rfl, rfl⟩

theorem climb_step (tight : least ≤ operator.precedence) :
    let right := climb (operator.precedence + 1) (operand node) others
    let whole := climb least (join operator left right.1) right.2.1
    (climb least left ((operator, node) :: others)).1 = whole.1 ∧
      (climb least left ((operator, node) :: others)).2.1 = whole.2.1 := by
  intro right whole
  rw [climb, if_pos tight]
  exact ⟨rfl, rfl⟩

/-- Climbing takes operands and operators from left to right, and leaves off before an operator that binds too
loosely. -/
theorem climb_reading (least : Nat) (left : BinaryTree) (entries : List (BinaryOperator × Node)) :
    (climb least left entries).1.first = left.first ∧
      (climb least left entries).1.rest ++ (climb least left entries).2.1 = left.rest ++ entries ∧
      ∀ entry ∈ (climb least left entries).2.1.head?, entry.1.precedence < least := by
  fun_induction climb least left entries with
  | case1 least left => simp
  | case2 least left operator node others tight right later shorter found whole last shorter' found' ih ih' =>
    rw [found] at ih
    rw [found'] at ih'
    obtain ⟨firstRight, restRight, -⟩ := ih
    obtain ⟨firstWhole, restWhole, stops⟩ := ih'
    refine ⟨firstWhole, ?_, stops⟩
    simp only [rest, first, List.nil_append] at restWhole restRight firstRight
    simp only [restWhole, restRight, firstRight, List.append_assoc, List.cons_append]
  | case3 least left operator node others loose => simpa using loose

theorem climb_ordered (least : Nat) (left : BinaryTree) (entries : List (BinaryOperator × Node))
    (ordered : left.Ordered) (atRoot : ∀ top ∈ left.root?, least ≤ top.precedence)
    (onward : ∀ entry ∈ entries.head?, ∀ top ∈ left.root?, entry.1.precedence ≤ top.precedence) :
    (climb least left entries).1.Ordered ∧
      ∀ top ∈ (climb least left entries).1.root?, least ≤ top.precedence := by
  fun_induction climb least left entries with
  | case1 least left => exact ⟨ordered, atRoot⟩
  | case2 least left operator node others tight right later shorter found whole last shorter' found' ih ih' =>
    have stops := (climb_reading (operator.precedence + 1) (operand node) others).2.2
    rw [found] at ih stops
    rw [found'] at ih'
    obtain ⟨orderedRight, atRight⟩ := ih (.operand node) nofun nofun
    have joined : (join operator left right).Ordered :=
      .join ordered orderedRight (onward _ rfl) atRight
    refine ih' joined ?_ ?_
    · rintro _ ⟨⟩
      exact tight
    · rintro entry member _ ⟨⟩
      exact Nat.le_of_lt_succ (stops entry member)
  | case3 least left operator node others loose => exact ⟨ordered, atRoot⟩

/-- The tree of a chain reads as the chain, and it is ordered. -/
theorem ofChain_spec (node : Node) (entries : List (BinaryOperator × Node)) :
    (ofChain node entries).first = node ∧ (ofChain node entries).rest = entries ∧
      (ofChain node entries).Ordered := by
  obtain ⟨isFirst, isRest, stops⟩ := climb_reading 0 (operand node) entries
  have none_left : (climb 0 (operand node) entries).2.1 = [] := by
    cases left_over : (climb 0 (operand node) entries).2.1 with
    | nil => rfl
    | cons entry others =>
      rw [left_over] at stops
      exact absurd (stops entry rfl) (Nat.not_lt_zero _)
  rw [none_left, List.append_nil] at isRest
  exact ⟨isFirst, isRest, (climb_ordered 0 (operand node) entries (.operand node) nofun nofun).1⟩

end BinaryTree

/-! ### The stack of operands that wait -/

section Stack

open EcmaScript.Grammar.BinaryTree

/-- What the loop over a chain makes of the operands that wait, the operand behind them and the rest of the
chain. -/
def joined (stack : List Pending) (right : Node) : List (BinaryOperator × Node) → Node
  | [] => reduceAll stack right
  | (operator, node) :: others =>
    let (stack, left) := reduce operator.precedence stack right
    joined ({ left, operator } :: stack) node others

def waiting (stack : List (BinaryTree × BinaryOperator)) : List Pending :=
  stack.map fun entry => { left := entry.1.toNode, operator := entry.2 }

/-- The same by climbing: each operand that waits is joined with a tree of tighter operators, the innermost
one first. -/
def unwind : List (BinaryTree × BinaryOperator) → BinaryTree → List (BinaryOperator × Node) → BinaryTree
  | [], right, entries => (climb 0 right entries).1
  | (left, operator) :: stack, right, entries =>
    let found := climb (operator.precedence + 1) right entries
    unwind stack (join operator left found.1) found.2.1

theorem unwind_nil (stack : List (BinaryTree × BinaryOperator)) (right : BinaryTree) :
    (unwind stack right []).toNode = reduceAll (waiting stack) right.toNode := by
  induction stack generalizing right with
  | nil => rw [unwind, climb]; rfl
  | cons entry stack ih =>
    obtain ⟨left, operator⟩ := entry
    rw [unwind, climb]
    exact ih (join operator left right)

/-- An operator that binds more tightly than those of the operands that wait is shifted. -/
theorem unwind_shift {stack : List (BinaryTree × BinaryOperator)} {operator : BinaryOperator}
    (tighter : ∀ entry ∈ stack.head?, entry.2.precedence < operator.precedence) (right : BinaryTree)
    (node : Node) (others : List (BinaryOperator × Node)) :
    unwind stack right ((operator, node) :: others) =
      unwind ((right, operator) :: stack) (operand node) others := by
  cases stack with
  | nil => rw [unwind, (climb_step (Nat.zero_le _)).1]; rfl
  | cons entry stack =>
    obtain ⟨left, waits⟩ := entry
    have tight : waits.precedence + 1 ≤ operator.precedence := tighter _ rfl
    rw [unwind, (climb_step tight).1, (climb_step tight).2]
    rfl

theorem unwind_reduce {operator waits : BinaryOperator} (looser : operator.precedence ≤ waits.precedence)
    (stack : List (BinaryTree × BinaryOperator)) (left right : BinaryTree) (node : Node)
    (others : List (BinaryOperator × Node)) :
    unwind ((left, waits) :: stack) right ((operator, node) :: others) =
      unwind stack (join waits left right) ((operator, node) :: others) := by
  have stops : operator.precedence < waits.precedence + 1 := Nat.lt_succ_of_le looser
  rw [unwind, (climb_stop stops).1, (climb_stop stops).2]

theorem joined_eq_unwind (entries : List (BinaryOperator × Node))
    (stack : List (BinaryTree × BinaryOperator)) (right : BinaryTree) :
    joined (waiting stack) right.toNode entries = (unwind stack right entries).toNode := by
  induction entries generalizing stack right with
  | nil => rw [unwind_nil, joined]
  | cons entry others shifted =>
    obtain ⟨operator, node⟩ := entry
    -- The operands that wait are gone through as the loop does, from the top of the stack.
    induction stack generalizing right with
    | nil =>
      rw [unwind_shift (by simp)]
      exact shifted [(right, operator)] (operand node)
    | cons entry stack reduced =>
      obtain ⟨left, waits⟩ := entry
      by_cases looser : operator.precedence ≤ waits.precedence
      · rw [unwind_reduce looser, ← reduced, joined, joined, waiting, List.map_cons, reduce, if_pos looser]
        rfl
      · have tighter : waits.precedence < operator.precedence := Nat.lt_of_not_le looser
        rw [unwind_shift (by simpa using tighter), ← shifted, joined, waiting, List.map_cons, reduce,
          if_neg looser]
        rfl

theorem joined_eq_ofChain (first second : Node) (operator : BinaryOperator)
    (others : List (BinaryOperator × Node)) : joined [{ left := first, operator }] second others =
      (ofChain first ((operator, second) :: others)).toNode := by
  have shift : ofChain first ((operator, second) :: others) =
      unwind [(operand first, operator)] (operand second) others := by
    rw [← unwind_shift (by simp)]
    rfl
  rw [shift]
  exact joined_eq_unwind others [(operand first, operator)] (operand second)

end Stack

/-! ### Chains as they are read -/

/-- The lookahead is this operator, or none where operators are asked for. -/
def Offers (p : Parser) (found : Option BinaryOperator) : Prop :=
  ∃ token c, p.lookahead = some token ∧ p.context = some c ∧ found = token.lexeme.binaryOperator? c.allowIn

theorem binaryOperator?_ok_iff {p q : Parser} {found : Option BinaryOperator} :
    binaryOperator? p = .ok found q ↔ q = p ∧ Offers p found := by
  have read : binaryOperator? p =
      match p.lookahead, p.context with
      | some token, some c => .ok (token.lexeme.binaryOperator? c.allowIn) p
      | some _, none => .error .noContext p
      | none, _ => .error .noLookahead p := by
    simp only [binaryOperator?, Parse.lookahead, Parse.context, bind_assoc, get_bind]
    cases p.lookahead with
    | none => rfl
    | some token =>
      simp only [pure_bind, get_bind]
      cases p.context <;> rfl
  rw [read]
  cases looked : p.lookahead with
  | none => simp [Offers, looked]
  | some token =>
    cases held : p.context with
    | none => simp [Offers, looked, held]
    | some c => simp [Offers, looked, held, eq_comm, and_comm]

/-- The operators that come next, each with the operand that is read behind it, up to a token that is no
operator. -/
inductive Chain (reader : Reader) : Parser → List (BinaryOperator × Node) → Parser → Prop where
  | done {p : Parser} (ends : Offers p none) : Chain reader p [] p
  | more {p q r s : Parser} {operator : BinaryOperator} {node : Node}
      {others : List (BinaryOperator × Node)} (offers : Offers p (some operator))
      (taken : drop p = .ok () q) (read : isolated (unaryExpression reader) q = .ok node r)
      (chain : Chain reader r others s) : Chain reader p ((operator, node) :: others) s

/-- The registers once it is clear that the first operand is part of a binary expression. -/
def engaged (operator : BinaryOperator) (p : Parser) : Parser :=
  { p with
    assignmentTarget := some false
    bindingElement := some false
    lookahead := p.lookahead.map fun token => { token with precedence := some operator.precedence } }

theorem Offers.engaged {p : Parser} {found : Option BinaryOperator} (offers : Offers p found)
    {operator : BinaryOperator} : Offers (engaged operator p) found := by
  obtain ⟨token, c, looked, held, rfl⟩ := offers
  exact ⟨{ token with precedence := some operator.precedence }, c, by simp [Grammar.engaged, looked], held, rfl⟩

/-- The operands and operators of the binary expression that starts here. -/
inductive BinaryChain (reader : Reader) : Parser → Node → List (BinaryOperator × Node) → Parser → Prop where
  | alone {p q : Parser} {first : Node} (read : inherited (unaryExpression reader) p = .ok first q)
      (ends : Offers q none) : BinaryChain reader p first [] q
  | several {p q r : Parser} {first second : Node} {operator : BinaryOperator}
      {others : List (BinaryOperator × Node)}
      (read : inherited (unaryExpression reader) p = .ok first q) (offers : Offers q (some operator))
      (chain : Chain reader (engaged operator q) ((operator, second) :: others) r) :
      BinaryChain reader p first ((operator, second) :: others) r

def shifted (stack : List Pending) (right : Node) (operator : BinaryOperator) (node : Node) :
    List Pending × Node :=
  ({ left := (reduce operator.precedence stack right).2, operator } ::
    (reduce operator.precedence stack right).1, node)

/-- A round of the loop over operators. -/
def binaryRound (reader : Reader) :
    List Pending × Node → ParseM ((List Pending × Node) ⊕ Node) := fun (stack, right) => do
  match ← binaryOperator? with
  | none => pure (.inr (reduceAll stack right))
  | some operator => do
    let (stack, left) := reduce operator.precedence stack right
    drop
    let right ← isolated (unaryExpression reader)
    pure (.inl ({ left, operator } :: stack, right))

variable {reader : Reader} {p q : Parser} {stack : List Pending} {right node : Node}

theorem binaryExpression_eq : binaryExpression reader = (do
    let first ← inherited (unaryExpression reader)
    match ← binaryOperator? with
    | none => pure first
    | some operator => do
      expressionOnly
      notePrecedence operator
      drop
      let second ← isolated (unaryExpression reader)
      repeated (binaryRound reader) ([{ left := first, operator }], second)) :=
  rfl

/-- A round ends the loop or goes on with what the chain is made of. -/
theorem binaryRound_ok_iff {answer : (List Pending × Node) ⊕ Node} :
    binaryRound reader (stack, right) p = .ok answer q ↔
      (Offers p none ∧ q = p ∧ answer = .inr (reduceAll stack right)) ∨
      ∃ operator between operand, Offers p (some operator) ∧ drop p = .ok () between ∧
        isolated (unaryExpression reader) between = .ok operand q ∧
        answer = .inl (shifted stack right operator operand) := by
  constructor
  · intro run
    obtain ⟨found, _, seen, run⟩ := bind_ok_iff.mp run
    obtain ⟨rfl, offers⟩ := binaryOperator?_ok_iff.mp seen
    cases found with
    | none =>
      cases run
      exact .inl ⟨offers, rfl, rfl⟩
    | some operator =>
      obtain ⟨_, between, taken, run⟩ := bind_ok_iff.mp run
      obtain ⟨operand, _, read, run⟩ := bind_ok_iff.mp run
      cases run
      exact .inr ⟨operator, between, operand, offers, taken, read, rfl⟩
  · rintro (⟨offers, rfl, rfl⟩ | ⟨operator, between, operand, offers, taken, read, rfl⟩)
    · exact bind_ok_iff.mpr ⟨_, _, binaryOperator?_ok_iff.mpr ⟨rfl, offers⟩, rfl⟩
    · refine bind_ok_iff.mpr ⟨_, _, binaryOperator?_ok_iff.mpr ⟨rfl, offers⟩, ?_⟩
      exact bind_ok_iff.mpr ⟨_, _, taken, bind_ok_iff.mpr ⟨_, _, read, rfl⟩⟩

/-- What the loop answers is made of the chain that it has read. -/
theorem chain_of_iterate {rounds : Nat}
    (run : iterate .exhausted (binaryRound reader) rounds (stack, right) p = .ok node q) :
    ∃ entries, Chain reader p entries q ∧ node = joined stack right entries := by
  induction rounds generalizing p stack right with
  | zero => cases run
  | succ rounds ih =>
    obtain ⟨answer, next, round, run⟩ := bind_ok_iff.mp run
    rcases binaryRound_ok_iff.mp round with
      ⟨ends, rfl, rfl⟩ | ⟨operator, between, operand, offers, taken, read, rfl⟩
    · cases run
      exact ⟨[], .done ends, rfl⟩
    · obtain ⟨entries, chain, rfl⟩ := ih run
      exact ⟨(operator, operand) :: entries, .more offers taken read chain, rfl⟩

variable {entries : List (BinaryOperator × Node)}

theorem iterate_of_chain (chain : Chain reader p entries q) (rounds : Nat) :
    iterate .exhausted (binaryRound reader) rounds (stack, right) p = .ok (joined stack right entries) q ∨
      ∃ r, iterate .exhausted (binaryRound reader) rounds (stack, right) p = .error .exhausted r := by
  induction rounds generalizing p stack right entries with
  | zero => exact .inr ⟨p, rfl⟩
  | succ rounds ih =>
    cases chain with
    | done ends =>
      have round : binaryRound reader (stack, right) q = .ok (.inr (reduceAll stack right)) q :=
        binaryRound_ok_iff.mpr (.inl ⟨ends, rfl, rfl⟩)
      exact .inl (bind_ok_iff.mpr ⟨_, _, round, rfl⟩)
    | @more _ between next _ operator node others offers taken read chain =>
      have round : binaryRound reader (stack, right) p = .ok (.inl (shifted stack right operator node)) next :=
        binaryRound_ok_iff.mpr (.inr ⟨_, _, _, offers, taken, read, rfl⟩)
      have onward : iterate .exhausted (binaryRound reader) (rounds + 1) (stack, right) p =
          iterate .exhausted (binaryRound reader) rounds (shifted stack right operator node) next := by
        simp only [iterate, bind, EStateM.bind, round]
      rw [onward]
      exact ih chain

theorem ofChain_nil (first : Node) : BinaryTree.ofChain first [] = .operand first := by
  rw [BinaryTree.ofChain, BinaryTree.climb]

theorem operands_of_binaryExpression (run : binaryExpression reader p = .ok node q) :
    ∃ first entries, BinaryChain reader p first entries q ∧
      node = (BinaryTree.ofChain first entries).toNode := by
  rw [binaryExpression_eq] at run
  obtain ⟨first, r, read, run⟩ := bind_ok_iff.mp run
  obtain ⟨found, _, seen, run⟩ := bind_ok_iff.mp run
  obtain ⟨rfl, offers⟩ := binaryOperator?_ok_iff.mp seen
  cases found with
  | none =>
    cases run
    exact ⟨_, [], .alone read offers, by rw [ofChain_nil]; rfl⟩
  | some operator =>
    obtain ⟨_, _, settled, run⟩ := bind_ok_iff.mp run
    cases settled
    obtain ⟨_, _, noted, run⟩ := bind_ok_iff.mp run
    cases noted
    obtain ⟨_, between, taken, run⟩ := bind_ok_iff.mp run
    obtain ⟨second, next, read', run⟩ := bind_ok_iff.mp run
    obtain ⟨_, _, got, run⟩ := bind_ok_iff.mp run
    cases got
    obtain ⟨others, chain, rfl⟩ := chain_of_iterate run
    refine ⟨first, (operator, second) :: others, .several read offers ?_, joined_eq_ofChain _ _ _ _⟩
    exact .more offers.engaged taken read' chain

theorem binaryExpression_of_operands {first : Node} (operands : BinaryChain reader p first entries q) :
    binaryExpression reader p = .ok (BinaryTree.ofChain first entries).toNode q ∨
      ∃ r, binaryExpression reader p = .error .exhausted r := by
  rw [binaryExpression_eq]
  cases operands with
  | alone read ends =>
    refine .inl (bind_ok_iff.mpr ⟨_, _, read, bind_ok_iff.mpr ⟨_, _, binaryOperator?_ok_iff.mpr ⟨rfl, ends⟩, ?_⟩⟩)
    rw [ofChain_nil]
    rfl
  | @several _ _ _ second operator others read offers chain =>
    cases chain with
    | @more _ between next _ _ _ _ _ taken read' chain =>
      have onward : binaryExpression reader p =
          repeated (binaryRound reader) ([{ left := first, operator }], second) next := by
        rw [binaryExpression_eq, bind_of_ok read, bind_of_ok (binaryOperator?_ok_iff.mpr ⟨rfl, offers⟩)]
        exact (bind_of_ok taken).trans (bind_of_ok read')
      rw [← binaryExpression_eq, onward, ← joined_eq_ofChain]
      exact iterate_of_chain chain _

/-- Where the depth suffices, exactly the trees of operands and operators that can be read are read. -/
theorem binaryExpression_ok_iff {src : Source} {depth : Nat} {token : Token} (coherent : Coherent src p token)
    (enough : src.size ≤ p.place + depth) : binaryExpression (readerOf depth) p = .ok node q ↔
      ∃ first entries, BinaryChain (readerOf depth) p first entries q ∧
        node = (BinaryTree.ofChain first entries).toNode := by
  refine ⟨operands_of_binaryExpression, ?_⟩
  rintro ⟨first, entries, operands, rfl⟩
  rcases binaryExpression_of_operands operands with read | ⟨r, spent⟩
  · exact read
  · have ends := Advances.of_goes binaryExpression_goes src depth p token coherent enough
    exact absurd rfl (ends.of_error spent)

/-! ### Two stacks -/

inductive Entry where
  | operand (node : Node)
  | operator (operator : BinaryOperator)

/-- A stack of operands and operators, and beside it a stack of the tokens that the operands start with. The
top of each comes first. -/
structure Stacks where
  entries : List Entry
  markers : List (Option Token)

namespace Stacks

/-- The markers below the topmost one, which have to be there. -/
def below? : List (Option Token) → Option (List (Option Token))
  | _ :: marker :: markers => some (marker :: markers)
  | _ => none

/-- Joins the three topmost entries as long as the operator among them binds at least as tightly as the given
precedence. Each time a marker is popped. -/
def reduce? (precedence : Nat) : List Entry → List (Option Token) → Option Stacks
  | .operand right :: .operator operator :: .operand left :: entries, markers =>
    if precedence ≤ operator.precedence then
      (below? markers).bind
        (reduce? precedence (.operand (.binaryExpression operator left right) :: entries))
    else some ⟨.operand right :: .operator operator :: .operand left :: entries, markers⟩
  | entries, markers => some ⟨entries, markers⟩
termination_by entries => entries.length

/-- Joins all entries, and pops a marker for each operand that is joined. -/
def joinAll? : List Entry → List (Option Token) → Option Node
  | [.operand node], _ => some node
  | .operand right :: .operator operator :: .operand left :: entries, _ :: markers =>
    joinAll? (.operand (.binaryExpression operator left right) :: entries) markers
  | _, _ => none
termination_by entries => entries.length

def finish? : Stacks → Option Node
  | ⟨_, []⟩ => none
  | ⟨entries, _ :: markers⟩ => joinAll? entries markers

/-- The entries for operands that wait. -/
def entriesOf : List Pending → List Entry
  | [] => []
  | pending :: stack => .operator pending.operator :: .operand pending.left :: entriesOf stack

variable {markers : List (Option Token)}

/-- There is a marker for each operand, and so reducing never lacks one. -/
theorem reduce?_entriesOf (precedence : Nat) (right : Node) (enough : markers.length = stack.length + 1) :
    ∃ left, left.length = (reduce precedence stack right).1.length + 1 ∧
      reduce? precedence (.operand right :: entriesOf stack) markers =
        some ⟨.operand (reduce precedence stack right).2 :: entriesOf (reduce precedence stack right).1, left⟩ := by
  induction stack generalizing right markers with
  | nil =>
    refine ⟨markers, enough, ?_⟩
    simp [entriesOf, reduce?, reduce]
  | cons pending stack ih =>
    rw [entriesOf, reduce?, reduce]
    split
    · obtain _ | ⟨_, _ | ⟨marker, markers⟩⟩ := markers
      · simp at enough
      · simp at enough
      · exact ih _ (by simpa using enough)
    · exact ⟨markers, enough, rfl⟩

theorem joinAll?_entriesOf (enough : markers.length = stack.length) :
    joinAll? (.operand right :: entriesOf stack) markers = some (reduceAll stack right) := by
  induction stack generalizing right markers with
  | nil => simp [entriesOf, joinAll?, reduceAll]
  | cons pending stack ih =>
    match markers, enough with
    | marker :: markers, enough =>
      rw [entriesOf, joinAll?]
      exact ih (by simpa using enough)

theorem finish?_entriesOf (enough : markers.length = stack.length + 1) :
    finish? ⟨.operand right :: entriesOf stack, markers⟩ = some (reduceAll stack right) := by
  match markers, enough with
  | marker :: markers, enough => exact joinAll?_entriesOf (by simpa using enough)

end Stacks

/-- What was popped, or a fault. -/
def popped (underflow : Fault) : Option α → ParseM α
  | some a => pure a
  | none => throw underflow

def stacksRound (underflow : Fault) (reader : Reader) (held : Stacks) : ParseM (Stacks ⊕ Node) := do
  match ← binaryOperator? with
  | none => return .inr (← popped underflow held.finish?)
  | some operator => do
    let held ← popped underflow (Stacks.reduce? operator.precedence held.entries held.markers)
    drop
    let marker := (← get).lookahead
    let right ← isolated (unaryExpression reader)
    pure (.inl ⟨.operand right :: .operator operator :: held.entries, marker :: held.markers⟩)

/-- A binary expression, read with two stacks. Popping an empty stack is a fault. -/
def binaryExpressionOnStacks (underflow : Fault) (reader : Reader) : ParseM Node := do
  let marker := (← get).lookahead
  let first ← inherited (unaryExpression reader)
  match ← binaryOperator? with
  | none => pure first
  | some operator => do
    expressionOnly
    notePrecedence operator
    drop
    let next := (← get).lookahead
    let second ← isolated (unaryExpression reader)
    repeated (stacksRound underflow reader)
      ⟨[.operand second, .operator operator, .operand first], [next, marker]⟩

theorem iterate_stacksRound (underflow : Fault) (rounds : Nat) (stack : List Pending)
    {markers : List (Option Token)} (enough : markers.length = stack.length + 1) :
    iterate .exhausted (stacksRound underflow reader) rounds ⟨.operand right :: Stacks.entriesOf stack, markers⟩ p =
      iterate .exhausted (binaryRound reader) rounds (stack, right) p := by
  induction rounds generalizing p stack right markers with
  | zero => rfl
  | succ rounds ih =>
    simp only [iterate, stacksRound, binaryRound, bind_assoc]
    refine bind_congr_ok fun found q seen => ?_
    cases found with
    | none =>
      rw [Stacks.finish?_entriesOf enough]
      rfl
    | some operator =>
      obtain ⟨left, enough', reduced⟩ := Stacks.reduce?_entriesOf operator.precedence right enough
      simp only [reduced, popped, bind_assoc, pure_bind]
      refine bind_congr_ok (m := drop) fun _ r taken => ?_
      refine bind_congr_ok (m := isolated (unaryExpression reader)) fun operand s read => ?_
      have still : (r.lookahead :: left).length = (shifted stack right operator operand).1.length + 1 :=
        congrArg (· + 1) enough'
      exact ih _ still

/-- No stack is ever popped when it is empty. -/
theorem binaryExpressionOnStacks_eq (underflow : Fault) (reader : Reader) :
    binaryExpressionOnStacks underflow reader = binaryExpression reader := by
  funext p
  rw [binaryExpression_eq]
  refine bind_congr_ok (m := inherited (unaryExpression reader)) fun first q read => ?_
  refine bind_congr_ok (m := binaryOperator?) fun found r seen => ?_
  cases found with
  | none => rfl
  | some operator =>
    refine bind_congr_ok (m := expressionOnly) fun _ _ _ => ?_
    refine bind_congr_ok (m := notePrecedence operator) fun _ _ _ => ?_
    refine bind_congr_ok (m := drop) fun _ _ _ => ?_
    refine bind_congr_ok (m := isolated (unaryExpression reader)) fun second _ _ => ?_
    exact iterate_stacksRound underflow _ [⟨first, operator⟩] rfl

/-! ### The main statement -/

theorem chain_iff_of_offers_none (ends : Offers p none) :
    Chain reader p entries q ↔ entries = [] ∧ q = p := by
  constructor
  · intro chain
    cases chain with
    | done => exact ⟨rfl, rfl⟩
    | more offers =>
      obtain ⟨token, c, looked, held, isNone⟩ := ends
      obtain ⟨token', c', looked', held', isSome⟩ := offers
      cases looked.symm.trans looked'
      cases held.symm.trans held'
      exact nomatch isNone.trans isSome.symm
  · rintro ⟨rfl, rfl⟩
    exact .done ends

theorem toValue_binaryExpression (operator : BinaryOperator) (left right : Node) :
    (Node.binaryExpression operator left right).toValue =
      Node.element (if operator.spelling = "||" ∨ operator.spelling = "&&" then "LogicalExpression"
          else "BinaryExpression")
        [("operator", .ofString operator.spelling), ("left", left.toValue), ("right", right.toValue)] := by
  have logical : operator.isLogical = true ↔ operator.spelling = "||" ∨ operator.spelling = "&&" := by
    cases operator <;> decide
  simp only [Node.toValue, logical]

/-- A binary expression is read exactly as precedence climbing joins its operands and operators. The tree reads
as they do from left to right, its operators are ordered, and no other tree is like that. The operations by
`||` and `&&` are the logical ones; where `in` is no operator, it ends the chain of operators; and the two
stacks that serve for reading are never popped when they are empty. -/
theorem binaryExpression_climbs :
    (∀ (src : Source) (depth : Nat) (p : Parser) (token : Token), Coherent src p token →
      src.size ≤ p.place + depth → ∀ node q, binaryExpression (readerOf depth) p = .ok node q ↔
          ∃ first entries, BinaryChain (readerOf depth) p first entries q ∧
            node = (BinaryTree.ofChain first entries).toNode) ∧
    (∀ (first : Node) (entries : List (BinaryOperator × Node)) (tree : BinaryTree),
      tree = .ofChain first entries ↔ tree.first = first ∧ tree.rest = entries ∧ tree.Ordered) ∧
    (∀ (operator : BinaryOperator) (left right : Node),
      (Node.binaryExpression operator left right).toValue =
        Node.element (if operator.spelling = "||" ∨ operator.spelling = "&&" then "LogicalExpression"
            else "BinaryExpression")
          [("operator", .ofString operator.spelling), ("left", left.toValue), ("right", right.toValue)]) ∧
    (∀ (reader : Reader) (p : Parser) (token : Token) (c : Context), p.lookahead = some token →
      token.lexeme = .keyword .in_ → p.context = some c → c.allowIn = false → ∀ entries q,
        Chain reader p entries q ↔ entries = [] ∧ q = p) ∧ ∀ (underflow : Fault) (reader : Reader),
      binaryExpressionOnStacks underflow reader = binaryExpression reader := by
  refine ⟨fun src depth p token coherent enough node q => binaryExpression_ok_iff coherent enough,
    fun first entries tree => ?_, toValue_binaryExpression, ?_, binaryExpressionOnStacks_eq⟩
  · obtain ⟨isFirst, isRest, ordered⟩ := BinaryTree.ofChain_spec first entries
    constructor
    · rintro rfl
      exact ⟨isFirst, isRest, ordered⟩
    · rintro ⟨rfl, rfl, ordered'⟩
      exact ordered'.unique ordered isFirst.symm isRest.symm
  · intro reader p token c looked word held forbidden entries q
    have ends : Offers p none := ⟨token, c, looked, held, by rw [word, forbidden]; rfl⟩
    exact chain_iff_of_offers_none ends

/-- Of three operators the tightest is joined first, and of the two others the one on the left. -/
theorem binaryExpression_climbs_three_operators :
    ∃ p token q a b c d, peek (Parser.begin {} (Text.ofString "a+b*c-d")) = .ok () p ∧
      Coherent (Parser.sourceOf (Text.ofString "a+b*c-d")) p token ∧
      ∃ first entries, BinaryChain (readerOf 17) p first entries q ∧
        Node.binaryExpression .subtract (.binaryExpression .add a (.binaryExpression .multiply b c)) d =
          (BinaryTree.ofChain first entries).toNode := by
  have reads : (match peek (Parser.begin {} (Text.ofString "a+b*c-d")) with
    | .ok _ p => (match binaryExpression (readerOf 17) p with
      | .ok (.binaryExpression .subtract (.binaryExpression .add _ (.binaryExpression .multiply _ _)) _) _ => true
      | _ => false)
    | .error _ _ => false) = true := by decide +kernel
  split at reads
  case h_2 => cases reads
  next p fetched =>
    split at reads
    case h_2 => cases reads
    next a b c d q run =>
      obtain ⟨token, coherent⟩ := (Poised.of_begin {} _).coherent_of_fetch (.inl fetched)
      have enough : (Parser.sourceOf (Text.ofString "a+b*c-d")).size ≤ p.place + 17 :=
        Nat.le_trans (by decide) (Nat.le_add_left 17 _)
      obtain ⟨first, entries, operands, tree⟩ :=
        (binaryExpression_climbs.1 _ 17 p token coherent enough _ q).mp run
      exact ⟨p, token, q, a, b, c, d, fetched, coherent, first, entries, operands, tree⟩

end EcmaScript.Grammar
