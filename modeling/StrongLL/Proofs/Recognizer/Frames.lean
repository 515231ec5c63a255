import StrongLL.Proofs.Recognizer.LeastDerivation
import StrongLL.Proofs.Search.Frames

/-!
# The recognizers with frames

Both backtracking recognizers can be run as loops over one working state: the pending symbols or the
stack, a cursor into the input, and the rules applied. The top-down loop keeps the first pending
symbol in the frame of its state and opens no frame for a state with more pending symbols than
unread characters. The bottom-up loop rebuilds the right side of the rule when it takes a reduction
back, and it counts the shift as the alternative behind all rules. Both follow the spaces in which
the recognizers search, so they search by value and restore what they change.
-/

namespace StrongLL

set_option autoImplicit false

/-- The first untried rule that can be used, with the number of alternatives tried by then. -/
def firstUsable? (usable : Rule → Bool) (next : Nat) : List Rule → Option (Nat × Rule)
  | [] => none
  | rule :: rules =>
      if usable rule then some (next + 1, rule) else firstUsable? usable (next + 1) rules

section FirstUsable

variable {usable : Rule → Bool} {next later : Nat} {untried : List Rule} {rule : Rule}

theorem usable_of_firstUsable? (found : firstUsable? usable next untried = some (later, rule)) :
    usable rule = true := by
  induction untried generalizing next with
  | nil => exact nomatch found
  | cons first rest induction =>
      rw [firstUsable?] at found
      split at found
      · next use =>
          cases found
          exact use
      · exact induction found

theorem le_of_firstUsable? (found : firstUsable? usable next untried = some (later, rule)) :
    later ≤ next + untried.length := by
  induction untried generalizing next with
  | nil => exact nomatch found
  | cons first rest induction =>
      rw [firstUsable?] at found
      rw [List.length_cons]
      split at found
      · cases found
        omega
      · have bound := induction found
        omega

end FirstUsable

/-- Where the moves are to apply rules and some others behind them, the next move is to apply the
first usable rule, or one of the others. -/
theorem Space.advance?_map_append {State Move Memo : Type} {space : Space State Move Memo}
    {state : State} {move : Rule → Move} {usable : Rule → Bool} {leads : Rule → State × Memo}
    (each : ∀ rule,
      space.perform? state (move rule) = if usable rule then some (leads rule) else none)
    (others : List Move) (rules : List Rule) (next : Nat) :
    space.advance? state ((rules.drop next).map move ++ others) =
      match firstUsable? usable next (rules.drop next) with
      | some (later, rule) =>
          some ((leads rule).1, ⟨(leads rule).2, (rules.drop later).map move ++ others⟩)
      | none => space.advance? state others := by
  generalize same : rules.drop next = untried
  induction untried generalizing next with
  | nil => rfl
  | cons rule untried induction =>
      have behind : rules.drop (next + 1) = untried := by
        rw [← List.tail_drop, same, List.tail_cons]
      rw [List.map_cons, List.cons_append, advance?, each, firstUsable?]
      cases usable rule with
      | true => simp only [if_true, behind]
      | false =>
          simp only [Bool.false_eq_true, if_false]
          exact induction (next + 1) behind

namespace TopDown

/-- The working state: the pending symbols, the first one first, the number of characters read, and
the rules applied, the latest first. -/
structure Work where
  pending : List Symbol
  cursor : Nat
  applied : List Rule

/-- A move that can be taken back. -/
inductive Done where
  | matched
  | expanded (rule : Rule)

/-- The first pending symbol is taken off, unless the state is dead or nothing is pending. -/
def hold? (input : Text) (work : Work) : Option (Symbol × Work) :=
  if work.pending.length ≤ input.length - work.cursor then
    match work.pending with
    | [] => none
    | top :: pending => some (top, { work with pending })
  else none

/-- A terminal is matched once, and a nonterminal is expanded by each of its rules. -/
def advance? (search : TopDown) (input : Text) (frame : Frame Symbol Done) (work : Work) :
    Option (Advance Work Done) :=
  match frame.held with
  | .terminal expected =>
      if 0 < frame.next then none
      else if input[work.cursor]?.any expected.accepts then
        some ⟨{ work with cursor := work.cursor + 1 }, 0, 1, .matched⟩
      else none
  | .nonterminal n =>
      let usable := fun rule : Rule => !(rule.isUnit && search.unitLimit ≤ frame.units)
      match firstUsable? usable frame.next ((search.grammar.rulesOf n).drop frame.next) with
      | none => none
      | some (next, rule) =>
          some ⟨⟨rule.right ++ work.pending, work.cursor, rule :: work.applied⟩,
            if rule.isUnit then frame.units + 1 else 0, next, .expanded rule⟩

/-- The cursor goes back one character, or the right side and the rule are removed. -/
def undo? (done : Done) (work : Work) : Option Work :=
  match done with
  | .matched => if work.cursor = 0 then none else some { work with cursor := work.cursor - 1 }
  | .expanded rule =>
      match work.applied with
      | [] => none
      | _ :: applied =>
          if work.pending.length < rule.right.length then none
          else some ⟨work.pending.drop rule.right.length, work.cursor, applied⟩

/-- The top-down search with frames. -/
def frameLoop (search : TopDown) (input : Text) : FrameLoop Work Symbol Done where
  accepted work := work.pending.isEmpty && input.length - work.cursor == 0
  hold? := hold? input
  advance? := search.advance? input
  undo? := undo?
  release top work := { work with pending := top :: work.pending }

/-- The state of the search that a working state is after a run of units. -/
def view (input : Text) (work : Work) (units : Nat) : State :=
  ⟨work.pending, input.drop work.cursor, units, work.applied⟩

/-- The characters read are some of the input. -/
def Fits (input : Text) (work : Work) : Prop := work.cursor ≤ input.length

/-- A frame is opened for a state with at least as many unread characters as pending symbols. -/
def Stands (input : Text) (_ : Frame Symbol Done) (before : Work) : Prop :=
  before.pending.length < input.length - before.cursor

variable {search : TopDown} {input : Text}

theorem moves_view_dead {work : Work} {units : Nat} (dead : hold? input work = none) :
    search.moves (view input work units) = [] := by
  obtain ⟨pending, cursor, applied⟩ := work
  rw [hold?] at dead
  rw [moves, view, List.length_drop]
  split at dead
  · next alive =>
      rw [if_neg (Nat.not_lt.2 alive)]
      cases pending with
      | nil => rfl
      | cons top pending => cases dead
  · next outgrown => exact if_pos (Nat.not_le.1 outgrown)

theorem opens_of_hold? {work before : Work} {top : Symbol}
    (held : hold? input work = some (top, before)) :
    { before with pending := top :: before.pending } = work ∧
      before.pending.length < input.length - before.cursor := by
  obtain ⟨pending, cursor, applied⟩ := work
  rw [hold?] at held
  split at held
  · next alive =>
      cases pending with
      | nil => exact nomatch held
      | cons first pending =>
          cases held
          exact ⟨rfl, alive⟩
  · exact nomatch held

/-- The state for which a frame was opened. -/
def opened (input : Text) (top : Symbol) (before : Work) (units : Nat) : State :=
  view input { before with pending := top :: before.pending } units

variable {frame : Frame Symbol Done} {before : Work} {units : Nat}

theorem moves_opened (search : TopDown) (units : Nat) (top : Symbol)
    (alive : before.pending.length < input.length - before.cursor) :
    search.space.moves (opened input top before units) =
      match top with
      | .terminal _ => [.scan]
      | .nonterminal n => (search.grammar.rulesOf n).map .expand := by
  simp only [space, moves, opened, view, List.length_drop, List.length_cons]
  rw [if_neg (by omega)]
  cases top <;> rfl

/-- The next character is matched if the terminal accepts it. -/
theorem perform?_scan {expected : Terminal} {found : Char}
    (unread : input.drop before.cursor = found :: input.drop (before.cursor + 1)) :
    search.space.perform? (opened input (.terminal expected) before units) .scan =
      if expected.accepts found then
        some (view input { before with cursor := before.cursor + 1 } 0, .scanned found units)
      else none := by
  cases expected with
  | epsilon =>
      simp only [space, perform?, opened, view, Terminal.accepts, Bool.false_eq_true, if_false]
  | char c =>
      simp only [space, perform?, opened, view, unread, Terminal.accepts, beq_iff_eq]
      by_cases same : c = found
      · rw [if_pos same, if_pos same, same]
      · rw [if_neg same, if_neg same]

theorem perform?_expand (search : TopDown) (input : Text) (before : Work) (units : Nat)
    (n : NonTerminal) (rule : Rule) :
    search.space.perform? (opened input (.nonterminal n) before units) (.expand rule) =
      if !(rule.isUnit && search.unitLimit ≤ units) then
        some
          (view input ⟨rule.right ++ before.pending, before.cursor, rule :: before.applied⟩
            (if rule.isUnit then units + 1 else 0), .expanded rule units)
      else none := by
  simp only [space, perform?, opened, view, List.tail_cons]
  cases rule.isUnit && decide (search.unitLimit ≤ units) with
  | true => rfl
  | false => rfl

theorem mirrors_terminal (alive : Stands input frame before) {expected : Terminal}
    (held : frame.held = .terminal expected) :
    Option.Rel
      ((search.frameLoop input).Mirrors (view input) (Fits input) (Stands input) [Move.scan] frame
        before)
      (search.space.advance? (opened input (.terminal expected) before frame.units)
        ([Move.scan].drop frame.next))
      (search.advance? input frame before) := by
  have bound : before.cursor < input.length := by
    unfold Stands at alive
    omega
  have unread := List.drop_eq_getElem_cons bound
  have current := List.getElem?_eq_getElem bound
  generalize input[before.cursor] = found at unread current
  simp only [advance?, held, current, Option.any_some]
  cases frame.next with
  | succ tried =>
      rw [if_pos (Nat.succ_pos tried), List.drop_succ_cons, List.drop_nil]
      exact .none
  | zero =>
      rw [if_neg (Nat.lt_irrefl 0), List.drop_zero, Space.advance?, perform?_scan unread]
      cases expected.accepts found with
      | false => exact .none
      | true => exact .some ⟨bound, rfl, rfl, rfl, alive⟩

theorem mirrors_nonterminal (alive : Stands input frame before) {n : NonTerminal}
    (held : frame.held = .nonterminal n) :
    Option.Rel
      ((search.frameLoop input).Mirrors (view input) (Fits input) (Stands input)
        ((search.grammar.rulesOf n).map .expand) frame before)
      (search.space.advance? (opened input (.nonterminal n) before frame.units)
        (((search.grammar.rulesOf n).map .expand).drop frame.next))
      (search.advance? input frame before) := by
  have tries := Space.advance?_map_append
    (fun rule => search.perform?_expand input before frame.units n rule) []
    (search.grammar.rulesOf n) frame.next
  rw [List.append_nil, List.map_drop] at tries
  simp only [tries, advance?, held]
  cases firstUsable? (fun rule => !(rule.isUnit && decide (search.unitLimit ≤ frame.units)))
      frame.next ((search.grammar.rulesOf n).drop frame.next) with
  | none => exact .none
  | some found =>
      obtain ⟨later, rule⟩ := found
      have bound : before.cursor ≤ input.length := by
        unfold Stands at alive
        omega
      have undone : undo? (.expanded rule)
          ⟨rule.right ++ before.pending, before.cursor, rule :: before.applied⟩ = some before := by
        simp [undo?]
      refine .some ⟨bound, rfl, ?_, undone, alive⟩
      rw [List.append_nil, List.map_drop]

theorem related_advances (alive : Stands input frame before) :
    Option.Rel
      ((search.frameLoop input).Mirrors (view input) (Fits input) (Stands input)
        (search.space.moves (opened input frame.held before frame.units)) frame before)
      (search.space.advance? (opened input frame.held before frame.units)
        ((search.space.moves (opened input frame.held before frame.units)).drop frame.next))
      (search.advance? input frame before) := by
  rw [search.moves_opened frame.units frame.held alive]
  cases held : frame.held with
  | terminal expected => exact mirrors_terminal alive held
  | nonterminal n => exact mirrors_nonterminal alive held

/-- The top-down search with frames follows the one by states. -/
theorem follows_space (search : TopDown) (input : Text) :
    (search.frameLoop input).Follows search.space (view input) (Fits input) (Stands input) where
  accepted := by
    intro work units _
    have read : (input.length - work.cursor == 0) = (input.drop work.cursor).isEmpty := by
      rw [Bool.eq_iff_iff, beq_iff_eq, List.isEmpty_iff, List.drop_eq_nil_iff]
      omega
    simp only [frameLoop, space, view, State.accepted, read]
  dead := fun _ dead => moves_view_dead dead
  opens := by
    intro work before held _ holds
    obtain ⟨released, alive⟩ := opens_of_hold? holds
    exact ⟨released, fun _ => alive⟩
  advances := by
    intro frame before alive state same
    subst same
    exact related_advances alive

def descent (search : TopDown) : search.space.Descent :=
  ⟨search.height, fun _ _ leads => height_lt (step_of_leads leads)⟩

/-- The top-down search by value. -/
def byValue (search : TopDown) (input : Text) : Visited State :=
  search.space.visit search.descent search.stepLimit 0 (search.initial input)

/-- The derivation that an accepted state stands for. -/
def derivation (last : State) : Derivation := ⟨.leftmost, last.applied.reverse⟩

theorem rollsBack (search : TopDown) (input : Text) :
    (search.frameLoop input).RollsBack search.stepLimit (view input)
      ⟨[.nonterminal search.grammar.start], 0, []⟩ (search.byValue input) :=
  (search.follows_space input).rollsBack search.descent search.stepLimit (Nat.zero_le _)

theorem search_eq_byValue (search : TopDown) (input : Text) :
    search.space.search (search.stepLimit.getD (search.visitBound input.length))
        (search.initial input) [] =
      (search.byValue input).verdict (search.initial input) :=
  Space.search_eq_verdict search.restores_space search.descent search.length_moves_le
    (search.pow_height_le input) search.stepLimit

theorem parse_eq_byValue (search : TopDown) {input : Text} (filled : input ≠ []) :
    search.parse input = (search.byValue input).answer derivation := by
  rw [search.parse_filled filled]
  exact Space.search_answer_eq search.restores_space search.descent search.length_moves_le
    (search.pow_height_le input) search.stepLimit derivation

end TopDown

namespace BottomUp

/-- The working state: the stack, the last symbol first, the number of characters read, and the
reductions, the latest first. -/
structure Work where
  stack : List Symbol
  cursor : Nat
  reductions : List Rule

/-- The right side of a rule at the end of the stack is replaced by the left side. -/
def Work.reduce (work : Work) (rule : Rule) : Work :=
  ⟨.nonterminal rule.left :: work.stack.drop rule.right.length, work.cursor,
    rule :: work.reductions⟩

def Work.shift (work : Work) (c : Char) : Work :=
  ⟨.terminal (.char c) :: work.stack, work.cursor + 1, work.reductions⟩

/-- A move that can be taken back. -/
inductive Done where
  | reduced (rule : Rule)
  | shifted

/-- The tuple of the character at the cursor. -/
def lookahead (input : Text) (cursor : Nat) : Tuple :=
  match input[cursor]? with
  | none => .epsilon
  | some c => [.char c]

/-- The right side ends the stack, the run of units may go on, and the next character may follow the
left side. -/
def canReduce (search : BottomUp) (input : Text) (units : Nat) (work : Work) (rule : Rule) : Bool :=
  rule.right.reverse.isPrefixOf work.stack && !(rule.isUnit && search.unitLimit ≤ units) &&
    (search.follow.get? rule.left).any fun set => set.contains (lookahead input work.cursor)

/-- The rules are tried in their order, and behind them a character is shifted once. -/
def advance? (search : BottomUp) (input : Text) (frame : Frame Unit Done) (work : Work) :
    Option (Advance Work Done) :=
  let rules := search.grammar.rules.toList
  match firstUsable? (search.canReduce input frame.units work) frame.next
      (rules.drop frame.next) with
  | some (next, rule) =>
      some ⟨work.reduce rule, if rule.isUnit then frame.units + 1 else 0, next, .reduced rule⟩
  | none =>
      if rules.length < frame.next then none
      else
        match input[work.cursor]? with
        | none => none
        | some c => some ⟨work.shift c, 0, rules.length + 1, .shifted⟩

/-- The last symbol is taken off; then the right side of the rule comes back and the rule is
removed, or the cursor goes back one character. -/
def undo? (done : Done) (work : Work) : Option Work :=
  match work.stack with
  | [] => none
  | _ :: stack =>
      match done with
      | .reduced rule =>
          match work.reductions with
          | [] => none
          | _ :: reductions => some ⟨rule.right.reverse ++ stack, work.cursor, reductions⟩
      | .shifted =>
          if work.cursor = 0 then none else some ⟨stack, work.cursor - 1, work.reductions⟩

/-- The bottom-up search with frames. Every state that is not accepted gets a frame. -/
def frameLoop (search : BottomUp) (input : Text) : FrameLoop Work Unit Done where
  accepted work :=
    work.cursor == input.length && work.stack == [.nonterminal search.grammar.start]
  hold? work := some ((), work)
  advance? := search.advance? input
  undo? := undo?
  release _ work := work

/-- The state of the search that a working state is after a run of units. -/
def view (input : Text) (work : Work) (units : Nat) : State :=
  ⟨work.stack, input.drop work.cursor, units, work.reductions⟩

/-- The characters read are some of the input. -/
def Fits (input : Text) (work : Work) : Prop := work.cursor ≤ input.length

variable {search : BottomUp} {input : Text} {frame : Frame Unit Done} {before : Work}

theorem below?_eq_ite (handle stack : List Symbol) :
    below? handle stack =
      if handle.isPrefixOf stack then some (stack.drop handle.length) else none := by
  induction handle generalizing stack with
  | nil => rw [below?, List.isPrefixOf_nil_left, if_pos rfl, List.length_nil, List.drop_zero]
  | cons s handle induction =>
      cases stack with
      | nil => rfl
      | cons top stack =>
          rw [below?, List.isPrefixOf, List.length_cons, List.drop_succ_cons, induction]
          by_cases same : s = top
          · rw [if_pos same, beq_iff_eq.2 same, Bool.true_and]
          · rw [if_neg same, beq_eq_false_iff_ne.2 same, Bool.false_and, if_neg Bool.false_ne_true]

theorem upcoming_drop (input : Text) (cursor : Nat) :
    upcoming (input.drop cursor) = lookahead input cursor := by
  rw [lookahead, ← List.head?_drop]
  cases input.drop cursor <;> rfl

theorem perform?_reduce (search : BottomUp) (input : Text) (before : Work) (units : Nat)
    (rule : Rule) :
    search.space.perform? (view input before units) (.reduce rule) =
      if search.canReduce input units before rule then
        some
          (view input (before.reduce rule) (if rule.isUnit then units + 1 else 0),
            .reduced rule units)
      else none := by
  simp only [space, perform?, view, mayFollow, upcoming_drop, below?_eq_ite, canReduce,
    List.length_reverse]
  by_cases ends : rule.right.reverse.isPrefixOf before.stack = true
  · rw [if_pos ends]
    simp only [ends, Bool.true_and]
    cases rule.isUnit && decide (search.unitLimit ≤ units) with
    | true => rfl
    | false => rfl
  · have other := Bool.eq_false_of_not_eq_true ends
    simp only [other, Bool.false_and, Bool.false_eq_true, if_false]

theorem advance?_shift (search : BottomUp) (input : Text) (before : Work) (units : Nat) :
    search.space.advance? (view input before units) [.shift] =
      match input[before.cursor]? with
      | none => none
      | some c => some (view input (before.shift c) 0, ⟨.shifted c units, []⟩) := by
  cases unread : input[before.cursor]? with
  | none =>
      rw [List.getElem?_eq_none_iff] at unread
      simp only [Space.advance?, space, perform?, view, List.drop_eq_nil_of_le unread]
  | some c =>
      obtain ⟨bound, rfl⟩ := List.getElem?_eq_some_iff.1 unread
      simp only [Space.advance?, space, perform?, view, Work.shift, List.drop_eq_getElem_cons bound]

theorem undo?_reduced {rule : Rule} {units : Nat}
    (reducible : search.canReduce input units before rule = true) :
    undo? (.reduced rule) (before.reduce rule) = some before := by
  obtain ⟨stack, cursor, reductions⟩ := before
  rw [canReduce, Bool.and_eq_true, Bool.and_eq_true, List.isPrefixOf_iff_prefix] at reducible
  obtain ⟨below, rfl⟩ := reducible.1.1
  rw [Work.reduce, ← List.length_reverse, List.drop_left]
  rfl

theorem mirrors_reduce (fit : Fits input before) {later : Nat} {rule : Rule} {moves : List Move}
    (found : firstUsable? (search.canReduce input frame.units before) frame.next
      (search.grammar.rules.toList.drop frame.next) = some (later, rule)) {untried : List Move}
    (left : moves.drop later = untried) {units : Nat} :
    (search.frameLoop input).Mirrors (view input) (Fits input) (fun _ => Fits input) moves frame
      before (view input (before.reduce rule) units, ⟨Memo.reduced rule frame.units, untried⟩)
      ⟨before.reduce rule, units, later, Done.reduced rule⟩ :=
  ⟨fit, rfl, left, undo?_reduced (usable_of_firstUsable? found), fit⟩

theorem mirrors_shift (fit : Fits input before) {c : Char} (unread : input[before.cursor]? = some c)
    {moves : List Move} {later : Nat} (all : moves.length = later) :
    (search.frameLoop input).Mirrors (view input) (Fits input) (fun _ => Fits input) moves frame
      before (view input (before.shift c) 0, ⟨Memo.shifted c frame.units, []⟩)
      ⟨before.shift c, 0, later, Done.shifted⟩ := by
  obtain ⟨bound, _⟩ := List.getElem?_eq_some_iff.1 unread
  exact ⟨bound, rfl, List.drop_eq_nil_of_le (Nat.le_of_eq all), rfl, fit⟩

theorem drop_moves (search : BottomUp) {next : Nat}
    (room : next ≤ search.grammar.rules.toList.length) :
    search.moves.drop next = (search.grammar.rules.toList.drop next).map .reduce ++ [.shift] := by
  rw [moves, List.map_drop, List.drop_append_of_le_length (by rwa [List.length_map])]

theorem related_advances (fit : Fits input before) :
    Option.Rel
      ((search.frameLoop input).Mirrors (view input) (Fits input) (fun _ => Fits input) search.moves
        frame before)
      (search.space.advance? (view input before frame.units) (search.moves.drop frame.next))
      (search.advance? input frame before) := by
  have count : search.moves.length = search.grammar.rules.toList.length + 1 := by
    rw [moves, List.length_append, List.length_map, List.length_singleton]
  simp only [advance?]
  by_cases shifted : search.grammar.rules.toList.length < frame.next
  · rw [List.drop_eq_nil_of_le (by omega), List.drop_eq_nil_of_le (by omega), firstUsable?]
    simp only [if_pos shifted]
    exact .none
  · rw [search.drop_moves (Nat.le_of_not_lt shifted), Space.advance?_map_append
      (fun rule => search.perform?_reduce input before frame.units rule), search.advance?_shift]
    cases found : firstUsable? (search.canReduce input frame.units before) frame.next
        (search.grammar.rules.toList.drop frame.next) with
    | some use =>
        obtain ⟨later, rule⟩ := use
        have room : later ≤ search.grammar.rules.toList.length := by
          have bound := le_of_firstUsable? found
          rw [List.length_drop] at bound
          omega
        exact .some (mirrors_reduce fit found (search.drop_moves room))
    | none =>
        simp only [if_neg shifted]
        cases unread : input[before.cursor]? with
        | none => exact .none
        | some c => exact .some (mirrors_shift fit unread count)

/-- The bottom-up search with frames follows the one by states. -/
theorem follows_space (search : BottomUp) (input : Text) :
    (search.frameLoop input).Follows search.space (view input) (Fits input)
      (fun _ => Fits input) where
  accepted := by
    intro work units fit
    have read : (work.cursor == input.length) = (input.drop work.cursor).isEmpty := by
      rw [Bool.eq_iff_iff, beq_iff_eq, List.isEmpty_iff, List.drop_eq_nil_iff]
      unfold Fits at fit
      omega
    simp only [frameLoop, space, view, accepted, read]
  dead := fun _ dead => nomatch dead
  opens := by
    intro work before held fit holds
    cases holds
    exact ⟨rfl, fun _ => fit⟩
  advances := by
    intro frame before fit state same
    subst same
    exact related_advances fit

def descent (search : BottomUp) : search.space.Descent :=
  ⟨search.height, fun _ _ leads => height_lt (step_of_leads leads)⟩

/-- The bottom-up search by value. -/
def byValue (search : BottomUp) (input : Text) : Visited State :=
  search.space.visit search.descent search.stepLimit 0 (initial input)

/-- The derivation that an accepted state stands for. -/
def derivation (last : State) : Derivation := ⟨.rightmost, last.reductions⟩

theorem rollsBack (search : BottomUp) (input : Text) :
    (search.frameLoop input).RollsBack search.stepLimit (view input) ⟨[], 0, []⟩
      (search.byValue input) :=
  (search.follows_space input).rollsBack search.descent search.stepLimit (Nat.zero_le _)

theorem search_eq_byValue (search : BottomUp) (input : Text) :
    search.space.search (search.stepLimit.getD (search.visitBound input.length)) (initial input)
        [] =
      (search.byValue input).verdict (initial input) :=
  Space.search_eq_verdict search.restores_space search.descent
    (fun state => Nat.le_of_eq (search.length_moves state)) (search.pow_height_le input)
    search.stepLimit

theorem parse_eq_byValue (search : BottomUp) {input : Text} (filled : input ≠ []) :
    search.parse input = (search.byValue input).answer derivation := by
  rw [search.parse_filled filled]
  exact Space.search_answer_eq search.restores_space search.descent
    (fun state => Nat.le_of_eq (search.length_moves state)) (search.pow_height_le input)
    search.stepLimit derivation

end BottomUp

/-- The backtracking recognizers search by value. On a filled input, under any step limit, the loop
with frames of each halts with the result of the recursion that has a state of its own in each call,
and after as many visits; it takes back no move that is not there; when a frame is closed the
working state is the one for which the frame was opened, and when nothing is found the one with
which the loop began. The search that runs ends as the recursion does, and the recognizer answers
what the recursion returns. -/
theorem frames_search_by_value (g : Grammar) (limit : Option Nat) {input : Text}
    (filled : input ≠ []) :
    let topDown := TopDown.ofGrammar g limit
    let bottomUp := BottomUp.ofGrammar g limit
    ((topDown.frameLoop input).RollsBack limit (TopDown.view input)
        ⟨[.nonterminal g.start], 0, []⟩ (topDown.byValue input) ∧
      topDown.space.search (limit.getD (topDown.visitBound input.length))
          (topDown.initial input) [] =
        (topDown.byValue input).verdict (topDown.initial input) ∧
      topDown.parse input = (topDown.byValue input).answer TopDown.derivation) ∧
    ((bottomUp.frameLoop input).RollsBack limit (BottomUp.view input) ⟨[], 0, []⟩
        (bottomUp.byValue input) ∧
      bottomUp.space.search (limit.getD (bottomUp.visitBound input.length))
          (BottomUp.initial input) [] =
        (bottomUp.byValue input).verdict (BottomUp.initial input) ∧
      bottomUp.parse input = (bottomUp.byValue input).answer BottomUp.derivation) := by
  intro topDown bottomUp
  exact ⟨⟨topDown.rollsBack input, topDown.search_eq_byValue input,
      topDown.parse_eq_byValue filled⟩,
    bottomUp.rollsBack input, bottomUp.search_eq_byValue input, bottomUp.parse_eq_byValue filled⟩

/-- Two letters and a character that no rule has are tried in vain, and both loops end with the
working state with which they began. -/
theorem ambiguous_frames_end_at_start :
    ['x', 'x', 'y'] ≠ [] ∧
      (∃ steps, ((TopDown.ofGrammar ambiguous (some 100)).frameLoop ['x', 'x', 'y']).Halts
        (some 100) (FrameLoop.initial ⟨[.nonterminal (.named "S")], 0, []⟩)
        ⟨.ok false, ⟨[.nonterminal (.named "S")], 0, []⟩, steps⟩) ∧
      ∃ steps, ((BottomUp.ofGrammar ambiguous (some 100)).frameLoop ['x', 'x', 'y']).Halts
        (some 100) (FrameLoop.initial ⟨[], 0, []⟩) ⟨.ok false, ⟨[], 0, []⟩, steps⟩ := by
  have filled : ['x', 'x', 'y'] ≠ [] := List.cons_ne_nil _ _
  obtain ⟨⟨topDown, downward, _⟩, bottomUp, upward, _⟩ :=
    frames_search_by_value ambiguous (some 100) filled
  have nothing : (TopDown.ofGrammar ambiguous (some 100)).space.search 100
      ((TopDown.ofGrammar ambiguous (some 100)).initial ['x', 'x', 'y']) [] =
        .exhausted ((TopDown.ofGrammar ambiguous (some 100)).initial ['x', 'x', 'y']) := by
    cbv
  have neither : (BottomUp.ofGrammar ambiguous (some 100)).space.search 100
      (BottomUp.initial ['x', 'x', 'y']) [] = .exhausted (BottomUp.initial ['x', 'x', 'y']) := by
    cbv
  exact ⟨filled, ⟨_, topDown.halts_at_start (downward.symm.trans nothing)⟩,
    _, bottomUp.halts_at_start (upward.symm.trans neither)⟩

end StrongLL
