import Mathlib.Data.List.Infix
import Mathlib.Data.Set.Defs
import StrongLL.Proofs.Symbol.Spelling

/-!
# Which displays are told apart

Displays are put together with nothing between them, so sequences of symbols are told apart by their
displays only as far as no display begins another one, or as none ends another one. Brackets are meant
to ensure this, but a bracket is a terminal itself and may stand in a name. Two different sequences
with one display therefore use a display that begins another one and a display that ends another one,
and among names without brackets there are such sequences exactly if the display of a longer symbol
can be spelled out by symbols of one character.
-/

namespace StrongLL

set_option autoImplicit false

section Codes

variable {Item : Type} {code : Item → Text} {items others : List Item}

/-- Two sequences with one code go on after a common front with different items. -/
theorem exists_first_difference (filled : ∀ item ∈ items ++ others, code item ≠ [])
    (same : items.flatMap code = others.flatMap code) (differ : items ≠ others) :
    ∃ front s t back rest, items = front ++ s :: back ∧ others = front ++ t :: rest ∧ s ≠ t ∧
      (s :: back).flatMap code = (t :: rest).flatMap code := by
  induction items generalizing others with
  | nil =>
      obtain ⟨t, rest, rfl⟩ := List.exists_cons_of_ne_nil differ.symm
      exact absurd (List.append_eq_nil_iff.1 same.symm).1 (filled t (by simp))
  | cons s items induction =>
      cases others with
      | nil => exact absurd (List.append_eq_nil_iff.1 same).1 (filled s (by simp))
      | cons t others =>
          by_cases head : s = t
          · subst head
            have later : items.flatMap code = others.flatMap code := by simpa using same
            obtain ⟨front, s', t', back, rest, rfl, rfl, apart, more⟩ :=
              induction (fun item member => filled item (by grind)) later (by simpa using differ)
            exact ⟨s :: front, s', t', back, rest, rfl, rfl, apart, more⟩
          · exact ⟨[], s, t, items, others, rfl, rfl, head, same⟩

/-- One of two codes that begin the same text begins the other one. -/
theorem isPrefix_or_isPrefix_of_flatMap {s t : Item} {back rest : List Item}
    (same : (s :: back).flatMap code = (t :: rest).flatMap code) :
    code s <+: code t ∨ code t <+: code s := by
  have begins : code t <+: (s :: back).flatMap code := same ▸ List.prefix_append _ _
  exact List.prefix_or_prefix_of_prefix (List.prefix_append _ _) begins

theorem exists_isPrefix_of_flatMap (filled : ∀ item ∈ items ++ others, code item ≠ [])
    (same : items.flatMap code = others.flatMap code) (differ : items ≠ others) :
    ∃ s ∈ items ++ others, ∃ t ∈ items ++ others, s ≠ t ∧ code s <+: code t := by
  obtain ⟨front, s, t, back, rest, rfl, rfl, apart, more⟩ :=
    exists_first_difference filled same differ
  rcases isPrefix_or_isPrefix_of_flatMap more with begins | begins
  · exact ⟨s, by simp, t, by simp, apart, begins⟩
  · exact ⟨t, by simp, s, by simp, apart.symm, begins⟩

theorem exists_isSuffix_of_flatMap (filled : ∀ item ∈ items ++ others, code item ≠ [])
    (same : items.flatMap code = others.flatMap code) (differ : items ≠ others) :
    ∃ s ∈ items ++ others, ∃ t ∈ items ++ others, s ≠ t ∧ code s <:+ code t := by
  have mirrored : items.reverse.flatMap (List.reverse ∘ code) =
      others.reverse.flatMap (List.reverse ∘ code) := by
    rw [← List.reverse_flatMap, ← List.reverse_flatMap, same]
  obtain ⟨s, memberS, t, memberT, apart, begins⟩ := exists_isPrefix_of_flatMap
    (fun item member => by simpa using filled item (by simpa using member)) mirrored
    (fun equal => differ (List.reverse_inj.1 equal))
  exact ⟨s, by simpa using memberS, t, by simpa using memberT, apart, List.reverse_prefix.1 begins⟩

end Codes

/-- A text between two marks when it is longer than one character. -/
def enclosed (opening closing : Char) (text : Text) : Text :=
  if 1 < text.length then opening :: (text ++ [closing]) else text

theorem bracketed_eq_enclosed (text : Text) : bracketed text = enclosed '[' ']' text := rfl

theorem enclosed_reverse (opening closing : Char) (text : Text) :
    (enclosed opening closing text).reverse = enclosed closing opening text.reverse := by
  by_cases long : 1 < text.length
  · simp [enclosed, long]
  · simp [enclosed, long]

/-- How an enclosed text begins another one: as the mark itself, or with the mark behind it. -/
theorem enclosed_isPrefix_iff (opening closing : Char) {first second : Text} (filled : first ≠ [])
    (filledSecond : second ≠ []) :
    first ≠ second ∧ enclosed opening closing first <+: enclosed opening closing second ↔
      1 < second.length ∧
        (first = [opening] ∨ 1 < first.length ∧ first ++ [closing] <+: second) := by
  have single : ∀ text : Text, text ≠ [] → ¬1 < text.length → ∃ c, text = [c] := by
    intro text filled short
    have positive := List.length_pos_iff.2 filled
    exact List.length_eq_one_iff.1 (by omega)
  by_cases longSecond : 1 < second.length
  · by_cases longFirst : 1 < first.length
    · have several : first ≠ [opening] := fun same => by simp [same] at longFirst
      have shorter : first ++ [closing] <+: second → first ≠ second := fun begins same => by
        have length := begins.length_le
        rw [same, List.length_append, List.length_singleton] at length
        omega
      rw [enclosed, enclosed, if_pos longFirst, if_pos longSecond, List.cons_prefix_cons,
        List.prefix_concat_iff, List.append_left_inj]
      tauto
    · obtain ⟨c, rfl⟩ := single first filled longFirst
      have apart : [c] ≠ second := fun same => by simp [← same] at longSecond
      simp [enclosed, longSecond, apart, List.cons_prefix_cons]
  · obtain ⟨d, rfl⟩ := single second filledSecond longSecond
    simp only [longSecond, false_and, iff_false, not_and, enclosed, if_false]
    intro apart begins
    split at begins
    · have length := begins.length_le
      simp at length
    · next longFirst =>
        obtain ⟨c, rfl⟩ := single first filled longFirst
        rw [List.cons_prefix_cons] at begins
        exact apart (by rw [begins.1])

theorem bracketed_of_long {text : Text} (long : 1 < text.length) :
    bracketed text = '[' :: (text ++ [']']) := if_pos long

theorem bracketed_of_short {text : Text} (short : ¬1 < text.length) : bracketed text = text :=
  if_neg short

theorem bracketed_injective : Function.Injective bracketed := by
  intro first second same
  have lengths := congrArg List.length same
  by_cases longFirst : 1 < first.length
  · by_cases longSecond : 1 < second.length
    · rw [bracketed_of_long longFirst, bracketed_of_long longSecond] at same
      exact List.append_cancel_right (List.cons.inj same).2
    · rw [bracketed_of_long longFirst, bracketed_of_short longSecond] at lengths
      simp only [List.length_cons, List.length_append, List.length_nil] at lengths
      omega
  · by_cases longSecond : 1 < second.length
    · rw [bracketed_of_short longFirst, bracketed_of_long longSecond] at lengths
      simp only [List.length_cons, List.length_append, List.length_nil] at lengths
      omega
    · rwa [bracketed_of_short longFirst, bracketed_of_short longSecond] at same

theorem NonTerminal.display_injective : Function.Injective NonTerminal.display :=
  bracketed_injective.comp NonTerminal.text_injective

/-- The terminal is what is read from its spelling. -/
def Terminal.Valid (t : Terminal) : Prop := Symbol.read t.text = .ok (.terminal t)

instance : DecidablePred Terminal.Valid :=
  fun t => inferInstanceAs (Decidable (Symbol.read t.text = .ok (.terminal t)))

namespace Symbol

variable {s t : Symbol} {v w back rest : List Symbol} {text behind : Text}

/-- The symbol is what is read from its spelling. -/
def Valid (s : Symbol) : Prop := read s.text = .ok s

instance : DecidablePred Valid := fun s => inferInstanceAs (Decidable (read s.text = .ok s))

theorem valid_nonterminal (n : NonTerminal) : Valid (.nonterminal n) := by
  have upper : n.text.head?.any isUppercase = true := (Bool.and_eq_true_iff.1 n.isName_text).1
  have spelled : NonTerminal.read n.text = .ok n := NonTerminal.read_eq_ok_iff.2 rfl
  exact (if_pos upper).trans (congrArg (Except.map nonterminal) spelled)

/-- A nonterminal is always valid. -/
theorem valid_of_terminal (terminals : ∀ t, s = .terminal t → t.Valid) : s.Valid := by
  cases s with
  | terminal t => exact terminals t rfl
  | nonterminal n => exact valid_nonterminal n

/-- The spelling is longer than one character, so it is displayed in brackets. -/
def Long (s : Symbol) : Prop := 1 < s.text.length

instance : DecidablePred Long := fun s => inferInstanceAs (Decidable (1 < s.text.length))

/-- A bracketed display begins with another display: with a bracket that is displayed as it is, or
with a shorter name and the bracket behind it. -/
def ClashesInFront (s t : Symbol) : Prop :=
  t.Long ∧ (s.text = ['['] ∨ s.Long ∧ s.text ++ [']'] <+: t.text)

/-- A bracketed display ends with another display. -/
def ClashesBehind (s t : Symbol) : Prop :=
  t.Long ∧ (s.text = [']'] ∨ s.Long ∧ '[' :: s.text <:+ t.text)

/-- Some displays of the symbols begin others, and some end others. -/
def Clashing (symbols : List Symbol) : Prop :=
  (∃ s ∈ symbols, ∃ t ∈ symbols, ClashesInFront s t) ∧
    ∃ s ∈ symbols, ∃ t ∈ symbols, ClashesBehind s t

@[simp] theorem displayAll_nil : displayAll [] = [] := rfl

@[simp] theorem displayAll_cons (s : Symbol) (symbols : List Symbol) :
    displayAll (s :: symbols) = s.display ++ displayAll symbols := rfl

theorem Valid.text_ne_nil (valid : s.Valid) : s.text ≠ [] := by
  intro empty
  rw [Valid, empty] at valid
  exact nomatch valid

theorem Valid.eq_of_text (valid : s.Valid) (other : t.Valid) (same : s.text = t.text) : s = t := by
  rw [Valid, same, other] at valid
  exact (Except.ok.inj valid).symm

theorem Valid.display_ne_nil (valid : s.Valid) : s.display ≠ [] := by
  intro empty
  exact valid.text_ne_nil (bracketed_injective (empty.trans (bracketed_of_short (by decide)).symm))

theorem display_of_long (long : s.Long) : s.display = '[' :: (s.text ++ [']']) :=
  bracketed_of_long long

/-- A symbol of one character is displayed as that character. -/
theorem Valid.exists_char (valid : s.Valid) (short : ¬s.Long) :
    ∃ c, s.text = [c] ∧ s.display = [c] := by
  have filled := List.length_pos_iff.2 valid.text_ne_nil
  have single : s.text.length = 1 := by
    have bound : ¬1 < s.text.length := short
    omega
  obtain ⟨c, same⟩ := List.length_eq_one_iff.1 single
  exact ⟨c, same, by rw [display, bracketed_of_short short, same]⟩

theorem Valid.ne_iff (valid : s.Valid) (other : t.Valid) : s ≠ t ↔ s.text ≠ t.text :=
  ⟨fun apart same => apart (valid.eq_of_text other same), fun apart same => apart (same ▸ rfl)⟩

theorem clashesInFront_iff (validS : s.Valid) (validT : t.Valid) :
    s ≠ t ∧ s.display <+: t.display ↔ ClashesInFront s t := by
  rw [validS.ne_iff validT]
  exact enclosed_isPrefix_iff '[' ']' validS.text_ne_nil validT.text_ne_nil

theorem clashesBehind_iff (validS : s.Valid) (validT : t.Valid) :
    s ≠ t ∧ s.display <:+ t.display ↔ ClashesBehind s t := by
  have mirrored := enclosed_isPrefix_iff ']' '['
    (List.reverse_ne_nil_iff.2 validS.text_ne_nil) (List.reverse_ne_nil_iff.2 validT.text_ne_nil)
  rw [← enclosed_reverse, ← enclosed_reverse, List.reverse_prefix, ← List.reverse_cons,
    List.reverse_prefix] at mirrored
  rw [validS.ne_iff validT]
  simpa [ClashesBehind, Long, display, bracketed_eq_enclosed] using mirrored

/-- Different sequences with one display use displays that clash on both sides. -/
theorem clashing_of_displayAll (valid : ∀ s ∈ v ++ w, s.Valid)
    (same : displayAll v = displayAll w) (differ : v ≠ w) : Clashing (v ++ w) := by
  have filled : ∀ s ∈ v ++ w, s.display ≠ [] := fun s member => (valid s member).display_ne_nil
  constructor
  · obtain ⟨s, memberS, t, memberT, clash⟩ := exists_isPrefix_of_flatMap filled same differ
    exact ⟨s, memberS, t, memberT, (clashesInFront_iff (valid s memberS) (valid t memberT)).1 clash⟩
  · obtain ⟨s, memberS, t, memberT, clash⟩ := exists_isSuffix_of_flatMap filled same differ
    exact ⟨s, memberS, t, memberT, (clashesBehind_iff (valid s memberS) (valid t memberT)).1 clash⟩

section Spelling

variable {symbols : Set Symbol}

/-- Every character of the text is the spelling of one of the symbols. -/
def SpelledOut (symbols : Set Symbol) (text : Text) : Prop := ∀ c ∈ text, ∃ s ∈ symbols, s.text = [c]

theorem exists_spelling (spelled : SpelledOut symbols text) :
    ∃ v, (∀ s ∈ v, s ∈ symbols) ∧ v.length = text.length ∧ displayAll v = text := by
  induction text with
  | nil => exact ⟨[], by simp, rfl, rfl⟩
  | cons c text induction =>
      obtain ⟨s, member, single⟩ := spelled c (by simp)
      obtain ⟨v, members, length, shown⟩ :=
        induction fun d inside => spelled d (List.mem_cons_of_mem _ inside)
      refine ⟨s :: v, by simpa using ⟨member, members⟩, by simp [length], ?_⟩
      have display : s.display = [c] := by rw [Symbol.display, single]; rfl
      rw [displayAll_cons, display, shown]
      rfl

/-- Where a display does not go on with an opening bracket, it goes on with a symbol of one
character: a longer one would bring a bracket. -/
theorem exists_of_displayAll_eq_cons {c : Char} {later : Text} (valid : ∀ s ∈ v, s.Valid)
    (other : c ≠ '[') (same : displayAll v = c :: later) :
    ∃ s rest, v = s :: rest ∧ s.text = [c] ∧ displayAll rest = later := by
  cases v with
  | nil => exact nomatch same
  | cons s rest =>
      rw [displayAll_cons] at same
      by_cases long : s.Long
      · rw [display_of_long long] at same
        exact absurd (List.cons.inj same).1.symm other
      · obtain ⟨d, spelled, shown⟩ := (valid s (by simp)).exists_char long
        rw [shown] at same
        obtain ⟨rfl, later⟩ := List.cons.inj same
        exact ⟨s, rest, rfl, spelled, later⟩

/-- Up to a closing bracket, a display without opening brackets is spelled out by the symbols. -/
theorem spelledOut_of_displayAll (valid : ∀ s ∈ v, s.Valid) (members : ∀ s ∈ v, s ∈ symbols)
    (same : displayAll v = text ++ ']' :: behind) (plain : '[' ∉ text) :
    SpelledOut symbols (text ++ [']']) := by
  induction text generalizing v with
  | nil =>
      obtain ⟨s, rest, rfl, spelled, _⟩ := exists_of_displayAll_eq_cons valid (by decide) same
      intro c inside
      rw [List.nil_append, List.mem_singleton] at inside
      exact ⟨s, members s (by simp), inside ▸ spelled⟩
  | cons c text induction =>
      rw [List.mem_cons, not_or] at plain
      obtain ⟨s, rest, rfl, spelled, later⟩ :=
        exists_of_displayAll_eq_cons valid (Ne.symm plain.1) same
      intro d inside
      rcases List.mem_cons.1 inside with rfl | inside
      · exact ⟨s, members s (by simp), spelled⟩
      · exact induction (fun s member => valid s (List.mem_cons_of_mem _ member))
          (fun s member => members s (List.mem_cons_of_mem _ member)) later plain.2 d inside

/-- Where a sequence goes on with a symbol whose display begins that of a longer symbol without
brackets, it spells the display of the longer symbol out. -/
theorem spelledOut_of_isPrefix (valid : ∀ s ∈ symbols, s.Valid)
    (members : ∀ s' ∈ s :: back, s' ∈ symbols) (member : t ∈ symbols)
    (plain : t.Long → '[' ∉ t.text ∧ ']' ∉ t.text) (differ : s ≠ t)
    (same : displayAll (s :: back) = displayAll (t :: rest)) (begins : s.display <+: t.display) :
    t.Long ∧ SpelledOut symbols t.display := by
  have memberS := members s (by simp)
  obtain ⟨long, clash⟩ :=
    (clashesInFront_iff (valid s memberS) (valid t member)).1 ⟨differ, begins⟩
  rcases clash with bracket | ⟨_, shorter⟩
  · have shown : s.display = ['['] := by rw [display, bracket]; rfl
    have inner : displayAll back = t.text ++ ']' :: displayAll rest := by
      simpa [shown, display_of_long long] using same
    have later : ∀ s' ∈ back, s' ∈ symbols :=
      fun s' inside => members s' (List.mem_cons_of_mem _ inside)
    have spelled := spelledOut_of_displayAll (fun s' inside => valid s' (later s' inside)) later inner
      (plain long).1
    refine ⟨long, fun c inside => ?_⟩
    rw [display_of_long long] at inside
    rcases List.mem_cons.1 inside with rfl | inside
    · exact ⟨s, memberS, bracket⟩
    · exact spelled c inside
  · exact absurd (shorter.subset (by simp)) (plain long).2

/-- Among names without brackets, displays tell sequences apart unless the display of a longer symbol
can be spelled out. -/
theorem displayAll_injective_iff (valid : ∀ s ∈ symbols, s.Valid)
    (plain : ∀ s ∈ symbols, s.Long → '[' ∉ s.text ∧ ']' ∉ s.text) :
    (∀ v w, (∀ s ∈ v ++ w, s ∈ symbols) → displayAll v = displayAll w → v = w) ↔
      ¬∃ t ∈ symbols, t.Long ∧ SpelledOut symbols t.display := by
  constructor
  · rintro injective ⟨t, member, long, spelled⟩
    obtain ⟨v, members, length, shown⟩ := exists_spelling spelled
    have single := injective v [t] (by grind) (by simp [shown])
    rw [single, display_of_long long] at length
    simp at length
  · intro apart v w members same
    by_contra differ
    have filled : ∀ s ∈ v ++ w, s.display ≠ [] := fun s member =>
      (valid s (members s member)).display_ne_nil
    obtain ⟨front, s, t, back, rest, rfl, rfl, differ, more⟩ :=
      exists_first_difference filled same differ
    have memberS : ∀ s' ∈ s :: back, s' ∈ symbols := fun s' inside => members s' (by grind)
    have memberT : ∀ t' ∈ t :: rest, t' ∈ symbols := fun t' inside => members t' (by grind)
    have inFirst := memberS s (by simp)
    have inSecond := memberT t (by simp)
    rcases isPrefix_or_isPrefix_of_flatMap more with begins | begins
    · exact apart ⟨t, inSecond, spelledOut_of_isPrefix valid memberS inSecond (plain t inSecond)
        differ more begins⟩
    · exact apart ⟨s, inFirst, spelledOut_of_isPrefix valid memberT inFirst (plain s inFirst)
        differ.symm more.symm begins⟩

end Spelling

end Symbol

end StrongLL
