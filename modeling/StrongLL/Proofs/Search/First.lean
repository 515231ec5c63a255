import StrongLL.Proofs.Search.Walk

/-!
# What a search finds first

Where the moves of every state are tried in one order, the paths that lead from a state are ordered
too: at the first move in which they differ, and a path stands before those that go on from its end.
A search enters the states in this order and stops at the first accepted one, so the path on which
it stops is the first of all that lead to acceptance. A branch without success may be left out of
the comparison, because no path to acceptance begins there.
-/

namespace StrongLL

set_option autoImplicit false

/-- A list that has a property and stands before all others that have it: lists are compared at the
first place where they differ, and a list stands before its extensions. -/
structure FirstAmong {Item : Type} (earlier : Item → Item → Prop) (listed : List Item → Prop)
    (first : List Item) : Prop where
  holds : listed first
  before : ∀ other, listed other → first = other ∨ List.Lex earlier first other

theorem nil_eq_or_lex {Item : Type} {earlier : Item → Item → Prop} (other : List Item) :
    [] = other ∨ List.Lex earlier [] other := by
  cases other with
  | nil => exact .inl rfl
  | cons item items => exact .inr .nil

theorem FirstAmong.unique {Item : Type} {earlier : Item → Item → Prop}
    {listed : List Item → Prop} {one other : List Item}
    (asymmetric : ∀ {left right}, earlier left right → ¬earlier right left)
    (first : FirstAmong earlier listed one) (second : FirstAmong earlier listed other) :
    one = other := by
  rcases first.before other second.holds with same | before
  · exact same
  · rcases second.before one first.holds with same | behind
    · exact same.symm
    · exact absurd behind (List.lex_asymm asymmetric before)

theorem filterMap_cons_eq_append {Item Other : Type} (logged? : Item → Option Other) (item : Item)
    (items : List Item) :
    (item :: items).filterMap logged? = (logged? item).toList ++ items.filterMap logged? := by
  rw [List.filterMap_cons]
  cases logged? item with
  | none => rfl
  | some entry => rfl

namespace Space

variable {State Move Memo : Type} {space : Space State Move Memo} {state last : State}
  {moves : List Move} {count visits : Nat} {earlier : Move → Move → Prop}

/-- Moves that can be made one after another, and where they lead. -/
inductive Path (space : Space State Move Memo) : State → List Move → State → Prop where
  | nil {state : State} : Path space state [] state
  | cons {state next last : State} {move : Move} {memo : Memo} {path : List Move}
      (offered : move ∈ space.moves state) (made : space.perform? state move = some (next, memo))
      (more : Path space next path last) : Path space state (move :: path) last

theorem Path.reaches {path : List Move} (leads : space.Path state path last) :
    space.Reaches state last := by
  induction leads with
  | nil => exact .refl
  | cons offered made _ induction => exact .head ⟨_, offered, _, made⟩ induction

/-- Where every move puts its entry in front of a log, if it has one, a path leaves its entries
there, the latest first. -/
theorem Path.log_eq {Entry : Type} {logged? : Move → Option Entry} {log : State → List Entry}
    (each : ∀ {state next move memo}, space.perform? state move = some (next, memo) →
      log next = (logged? move).toList ++ log state)
    {path : List Move} (leads : space.Path state path last) :
    log last = (path.filterMap logged?).reverse ++ log state := by
  induction leads with
  | nil => rfl
  | @cons _ _ _ move _ path _ made _ induction =>
      rw [induction, each made, filterMap_cons_eq_append]
      cases logged? move with
      | none => rfl
      | some entry => simp

/-- The moves lead to an accepted state. -/
def Accepts (space : Space State Move Memo) (state : State) (path : List Move) : Prop :=
  ∃ last, space.Path state path last ∧ space.accepted last = true

theorem Accepts.of_leads {next : State} {path : List Move} (leads : space.Leads state next)
    (accepts : space.Accepts next path) :
    ∃ move memo, space.perform? state move = some (next, memo) ∧
      space.Accepts state (move :: path) := by
  rcases leads with ⟨move, offered, memo, made⟩
  rcases accepts with ⟨last, more, accepted⟩
  exact ⟨move, memo, made, last, .cons offered made more, accepted⟩

theorem Accepts.of_cons {next : State} {move : Move} {memo : Memo} {path : List Move}
    (made : space.perform? state move = some (next, memo))
    (accepts : space.Accepts state (move :: path)) : space.Accepts next path := by
  rcases accepts with ⟨last, leads, accepted⟩
  cases leads with
  | cons _ again more =>
      rw [made] at again
      cases again
      exact ⟨last, more, accepted⟩

theorem not_accepts_of_stuck {move : Move} {path : List Move}
    (stuck : space.perform? state move = none) : ¬space.Accepts state (move :: path) := by
  intro ⟨last, leads, _⟩
  cases leads with
  | cons _ made _ =>
      rw [stuck] at made
      exact nomatch made

theorem Accepts.exists_cons (rejected : space.accepted state = false) {path : List Move}
    (accepts : space.Accepts state path) :
    ∃ move more, path = move :: more ∧ move ∈ space.moves state := by
  rcases accepts with ⟨last, leads, accepted⟩
  cases leads with
  | nil =>
      rw [rejected] at accepted
      exact nomatch accepted
  | cons offered _ _ => exact ⟨_, _, rfl, offered⟩

theorem Walk.not_accepts (walk : space.Walk state (space.moves state) count none)
    (rejected : space.accepted state = false) (path : List Move) : ¬space.Accepts state path := by
  intro ⟨last, leads, accepted⟩
  cases walk.ends rejected with
  | exhausted nothing =>
      rw [nothing last leads.reaches] at accepted
      exact nomatch accepted

/-- The path is, or stands before, every path to acceptance that begins with one of the moves. -/
def Foremost (space : Space State Move Memo) (earlier : Move → Move → Prop) (state : State)
    (moves path : List Move) : Prop :=
  ∀ move ∈ moves, ∀ more, space.Accepts state (move :: more) →
    path = move :: more ∨ List.Lex earlier path (move :: more)

theorem foremost_of_head {move : Move} {path : List Move}
    (ordered : (move :: moves).Pairwise earlier)
    (head : ∀ more, space.Accepts state (move :: more) → path = more ∨ List.Lex earlier path more) :
    space.Foremost earlier state (move :: moves) (move :: path) := by
  intro other listed more accepts
  rcases List.mem_cons.1 listed with same | later
  · rw [same] at accepts ⊢
    rcases head more accepts with equal | before
    · exact .inl (congrArg (move :: ·) equal)
    · exact .inr (.cons before)
  · exact .inr (.rel ((List.pairwise_cons.1 ordered).1 other later))

theorem foremost_of_tail {move : Move} {path : List Move}
    (nothing : ∀ more, ¬space.Accepts state (move :: more))
    (others : space.Foremost earlier state moves path) :
    space.Foremost earlier state (move :: moves) path := by
  intro other listed more accepts
  rcases List.mem_cons.1 listed with same | later
  · exact absurd (same ▸ accepts) (nothing more)
  · exact others other later more accepts

/-- The path of a walk to what it finds is the first of all that begin with one of its moves. -/
theorem Walk.first (sorted : ∀ state, (space.moves state).Pairwise earlier)
    (walk : space.Walk state moves count (some last)) (offered : moves ⊆ space.moves state)
    (ordered : moves.Pairwise earlier) :
    ∃ path, space.Path state path last ∧ space.Foremost earlier state moves path := by
  generalize found : some last = result at walk
  induction walk with
  | done => exact nomatch found
  | skip stuck _ induction =>
      have others := induction (List.subset_of_cons_subset offered)
        (List.pairwise_cons.1 ordered).2 found
      rcases others with ⟨path, leads, foremost⟩
      exact ⟨path, leads, foremost_of_tail (fun _ => not_accepts_of_stuck stuck) foremost⟩
  | @hit _ _ move _ _ made _ =>
      cases found
      exact ⟨[move], .cons (offered List.mem_cons_self) made .nil,
        foremost_of_head ordered fun more _ => nil_eq_or_lex more⟩
  | @deep _ next _ move _ _ _ made rejected _ induction =>
      rcases induction (List.Subset.refl _) (sorted next) found with ⟨path, leads, foremost⟩
      refine ⟨move :: path, .cons (offered List.mem_cons_self) made leads,
        foremost_of_head ordered ?_⟩
      intro more accepts
      have below := accepts.of_cons made
      rcases below.exists_cons rejected with ⟨second, rest, whole, member⟩
      rw [whole] at below ⊢
      exact foremost second member rest below
  | miss made rejected inner _ _ others =>
      have later := others (List.subset_of_cons_subset offered)
        (List.pairwise_cons.1 ordered).2 found
      rcases later with ⟨path, leads, foremost⟩
      refine ⟨path, leads, foremost_of_tail (fun more accepts => ?_) foremost⟩
      exact inner.not_accepts rejected more (accepts.of_cons made)

/-- A search that finds an accepted state stops on the first path that leads to one. -/
theorem exists_first_of_search (restores : space.Restores) {height : State → Nat} {width : Nat}
    (lower : ∀ state next, space.Leads state next → height next < height state)
    (narrow : ∀ state, (space.moves state).length ≤ width)
    (sorted : ∀ state, (space.moves state).Pairwise earlier) {start : State}
    (found : space.search visits start [] = .found last) :
    ∃ path, space.Path start path last ∧ FirstAmong earlier (space.Accepts start) path := by
  have accepted := (reaches_of_search restores lower narrow found).2
  cases early : space.accepted start with
  | true =>
      rw [search_of_accepted early] at found
      split at found
      · exact nomatch found
      · cases found
        exact ⟨[], .nil, ⟨last, .nil, early⟩, fun other _ => nil_eq_or_lex other⟩
  | false =>
      rcases exists_walk lower narrow _ start (Nat.le_refl _) with ⟨count, result, walk, _⟩
      rw [walk.search_eq restores early] at found
      split at found
      · exact nomatch found
      · cases result with
        | none => exact nomatch found
        | some reached =>
            cases found
            rcases walk.first sorted (List.Subset.refl _) (sorted start) with
              ⟨path, leads, foremost⟩
            refine ⟨path, leads, ⟨_, leads, accepted⟩, fun other accepts => ?_⟩
            rcases accepts.exists_cons early with ⟨move, more, whole, member⟩
            rw [whole] at accepts ⊢
            exact foremost move member more accepts

end Space

end StrongLL
