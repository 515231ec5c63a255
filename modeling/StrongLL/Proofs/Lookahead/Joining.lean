import Mathlib.Computability.Language
import StrongLL.Proofs.Lookahead.First

/-!
# Joining tuples is joining languages

A canonical tuple spells one word, so a set of canonical tuples stands for a language. Joined sets hold
the cuts of the concatenated languages, and a set is determined by the language whose cuts it holds:
the laws of joining are the laws of concatenation, with the set of the empty word for the unit. They
need sets with tuples. An empty set is joined as if it held the empty word, which its language does not.
-/

namespace StrongLL

set_option autoImplicit false

namespace Tuple

/-- The tuple spells the empty word, or it has terminals and all of them are characters. -/
def Canonical (tuple : Tuple) : Prop := tuple = epsilon ∨ tuple ≠ [] ∧ Terminal.epsilon ∉ tuple

/-- The first `k` terminals of the word that the tuple spells. -/
def clip (k : Nat) (tuple : Tuple) : Tuple := ofWord (tuple.word.take k)

theorem clip_ofWord_chars (k : Nat) (word : Text) : clip k (ofWord (word.map .char)) = cut k word := by
  rw [clip, word_ofWord_chars, cut, List.map_take]

theorem canonical_iff {tuple : Tuple} :
    tuple.Canonical ↔ ∃ word : Text, ofWord (word.map .char) = tuple := by
  constructor
  · rintro (rfl | ⟨filled, chars⟩)
    · exact ⟨[], rfl⟩
    · have spelled : tuple ∈ Set.range (List.map Terminal.char) := by
        rw [Set.range_list_map]
        intro t occurs
        cases t with
        | char c => exact ⟨c, rfl⟩
        | epsilon => exact absurd occurs chars
      obtain ⟨word, rfl⟩ := spelled
      have unspelled : ((word.map Terminal.char).isEmpty) = false := by simpa using filled
      exact ⟨word, by rw [ofWord, unspelled]; rfl⟩
  · rintro ⟨word, rfl⟩
    cases word with
    | nil => exact .inl rfl
    | cons c rest => exact .inr ⟨by simp [ofWord], by simp [ofWord]⟩

theorem begins_ofWord_chars (k : Nat) (word : Text) : Begins k (ofWord (word.map .char)) word := by
  rw [Begins, word_ofWord_chars]

end Tuple

namespace TupleSet

variable {k : Nat} {first second third set : TupleSet} {language other : Language Char}

/-- The set has tuples, and all of them are canonical. -/
structure Canonical (set : TupleSet) : Prop where
  filled : set.isEmpty = false
  members : ∀ tuple ∈ set, tuple.Canonical

/-- The words that the tuples of a set spell. -/
def words (set : TupleSet) : Language Char := {word | Tuple.ofWord (word.map .char) ∈ set}

/-- The set with every tuple cut to its first `k` terminals, the empty word being spelled. -/
def clip (k : Nat) (set : TupleSet) : TupleSet := .ofList (set.toList.map (Tuple.clip k))

/-- The set has tuples, and up to `k` characters they are the words of the language. -/
structure Begins (k : Nat) (language : Language Char) (set : TupleSet) : Prop where
  filled : set.isEmpty = false
  sound : ∀ tuple ∈ set, ∃ word ∈ language, Tuple.Begins k tuple word
  complete : ∀ word ∈ language, ∃ tuple ∈ set, Tuple.Begins k tuple word

/-- The set holds the cuts of the words of the language, and nothing else. -/
def HoldsCuts (k : Nat) (language : Language Char) (set : TupleSet) : Prop :=
  ∀ tuple, tuple ∈ set ↔ ∃ word ∈ language, Tuple.cut k word = tuple

theorem Canonical.begins (canonical : set.Canonical) (k : Nat) : Begins k set.words set where
  filled := canonical.filled
  sound tuple member := by
    obtain ⟨word, rfl⟩ := Tuple.canonical_iff.1 (canonical.members tuple member)
    exact ⟨word, member, Tuple.begins_ofWord_chars k word⟩
  complete word member := ⟨_, member, Tuple.begins_ofWord_chars k word⟩

theorem HoldsCuts.begins (holds : HoldsCuts k language set) (filled : set.isEmpty = false) :
    Begins k language set where
  filled := filled
  sound tuple member := by
    obtain ⟨word, inside, rfl⟩ := (holds tuple).1 member
    exact ⟨word, inside, Tuple.begins_cut k word⟩
  complete word inside := ⟨_, (holds _).2 ⟨word, inside, rfl⟩, Tuple.begins_cut k word⟩

theorem HoldsCuts.unique (holds : HoldsCuts k language first) (again : HoldsCuts k language second) :
    first = second := by
  apply SortedSet.ext_of_mem
  intro tuple
  rw [holds tuple, again tuple]

theorem holdsCuts_epsilon (k : Nat) : HoldsCuts k 1 epsilon := by
  intro tuple
  simp only [Language.mem_one, exists_eq_left, Tuple.cut_nil, epsilon, SortedSet.mem_singleton]
  exact eq_comm

theorem begins_epsilon (k : Nat) : Begins k 1 epsilon := (holdsCuts_epsilon k).begins rfl

theorem Canonical.holdsCuts_clip (canonical : set.Canonical) (k : Nat) :
    HoldsCuts k set.words (set.clip k) := by
  intro tuple
  rw [clip, SortedSet.mem_ofList, List.mem_map]
  constructor
  · rintro ⟨whole, member, rfl⟩
    obtain ⟨word, rfl⟩ := Tuple.canonical_iff.1 (canonical.members whole member)
    exact ⟨word, member, (Tuple.clip_ofWord_chars k word).symm⟩
  · rintro ⟨word, member, rfl⟩
    exact ⟨_, member, Tuple.clip_ofWord_chars k word⟩

/-- Joined sets hold the cuts of the concatenated languages. -/
theorem Begins.concat (left : Begins k language first) (right : Begins k other second) :
    HoldsCuts k (language * other) (first.concat k second) := by
  intro tuple
  rw [mem_concat left.filled right.filled]
  constructor
  · rintro ⟨front, inFirst, back, inSecond, rfl⟩
    obtain ⟨begin, inLanguage, beginFront⟩ := left.sound front inFirst
    obtain ⟨rest, inOther, beginBack⟩ := right.sound back inSecond
    exact ⟨begin ++ rest, Language.append_mem_mul inLanguage inOther,
      (Tuple.concat_eq_cut beginFront beginBack).symm⟩
  · rintro ⟨word, inBoth, rfl⟩
    obtain ⟨begin, inLanguage, rest, inOther, rfl⟩ := Language.mem_mul.1 inBoth
    obtain ⟨front, inFirst, beginFront⟩ := left.complete begin inLanguage
    obtain ⟨back, inSecond, beginBack⟩ := right.complete rest inOther
    exact ⟨front, inFirst, back, inSecond, Tuple.concat_eq_cut beginFront beginBack⟩

theorem Begins.begins_concat (left : Begins k language first) (right : Begins k other second) :
    Begins k (language * other) (first.concat k second) :=
  (left.concat right).begins (nonempty_concat left.filled right.filled)

theorem concat_assoc (one : first.Canonical) (two : second.Canonical) (three : third.Canonical) :
    (first.concat k second).concat k third = first.concat k (second.concat k third) := by
  have left := ((one.begins k).begins_concat (two.begins k)).concat (three.begins k)
  have right := (one.begins k).concat ((two.begins k).begins_concat (three.begins k))
  rw [mul_assoc] at left
  exact left.unique right

theorem epsilon_concat (canonical : set.Canonical) : epsilon.concat k set = set.clip k := by
  have joined := (begins_epsilon k).concat (canonical.begins k)
  rw [one_mul] at joined
  exact joined.unique (canonical.holdsCuts_clip k)

theorem concat_epsilon (canonical : set.Canonical) : set.concat k epsilon = set.clip k := by
  have joined := (canonical.begins k).concat (begins_epsilon k)
  rw [mul_one] at joined
  exact joined.unique (canonical.holdsCuts_clip k)

/-- A set that holds more is joined to a set that holds more. -/
theorem concat_mono {firstLarger secondLarger : TupleSet} (left : first.isEmpty = false)
    (right : second.isEmpty = false) (inFirst : ∀ tuple ∈ first, tuple ∈ firstLarger)
    (inSecond : ∀ tuple ∈ second, tuple ∈ secondLarger) :
    ∀ tuple ∈ first.concat k second, tuple ∈ firstLarger.concat k secondLarger := by
  intro tuple member
  obtain ⟨front, frontMember, back, backMember, same⟩ := (mem_concat left right).1 member
  have leftLarger := SortedSet.nonempty_iff.2 ⟨front, inFirst front frontMember⟩
  have rightLarger := SortedSet.nonempty_iff.2 ⟨back, inSecond back backMember⟩
  apply (mem_concat leftLarger rightLarger).2
  exact ⟨front, inFirst front frontMember, back, inSecond back backMember, same⟩

/-- The sets of a list joined hold the cuts of their languages concatenated. -/
theorem holdsCuts_concatAll {sets : List TupleSet} (canonical : ∀ set ∈ sets, set.Canonical) :
    HoldsCuts k (sets.map words).prod (concatAll k sets) ∧ (concatAll k sets).isEmpty = false := by
  induction sets using List.reverseRecOn with
  | nil => exact ⟨holdsCuts_epsilon k, rfl⟩
  | append_singleton sets last induction =>
      obtain ⟨holds, filled⟩ := induction fun set member =>
        canonical set (List.mem_append_left _ member)
      have lastBegins := (canonical last (by simp)).begins k
      have step : concatAll k (sets ++ [last]) = (concatAll k sets).concat k last := by
        simp [concatAll]
      rw [step, List.map_append, List.prod_append, List.map_singleton, List.prod_singleton]
      exact ⟨(holds.begins filled).concat lastBegins, nonempty_concat filled lastBegins.filled⟩

theorem concatAll_append {sets more : List TupleSet} (canonical : ∀ set ∈ sets, set.Canonical)
    (canonicalMore : ∀ set ∈ more, set.Canonical) :
    concatAll k (sets ++ more) = (concatAll k sets).concat k (concatAll k more) := by
  obtain ⟨holds, filled⟩ := holdsCuts_concatAll (k := k) canonical
  obtain ⟨holdsMore, filledMore⟩ := holdsCuts_concatAll (k := k) canonicalMore
  have joined := (holds.begins filled).concat (holdsMore.begins filledMore)
  rw [← List.prod_append, ← List.map_append] at joined
  refine (holdsCuts_concatAll fun set member => ?_).1.unique joined
  exact (List.mem_append.1 member).elim (canonical set) (canonicalMore set)

end TupleSet

section Sequences

variable {k : Nat} {known : KnownSets} {v w : List Symbol}

/-- The known sets of the nonterminals in a sequence are canonical. -/
def KnownSets.CanonicalOn (known : KnownSets) (symbols : List Symbol) : Prop :=
  ∀ n set, .nonterminal n ∈ symbols → known.get? n = some set → set.Canonical

theorem TupleSet.canonical_singleton (t : Terminal) : TupleSet.Canonical (.singleton [t]) where
  filled := rfl
  members tuple member := by
    rw [SortedSet.mem_singleton.1 member]
    cases t with
    | epsilon => exact .inl rfl
    | char c => exact .inr ⟨by simp, by simp⟩

theorem canonical_of_mapM {sets : List TupleSet} (canonical : known.CanonicalOn v)
    (mapped : v.mapM (firstOfSymbol known) = some sets) : ∀ set ∈ sets, set.Canonical := by
  intro set member
  obtain ⟨s, occurs, found⟩ := exists_mem_of_mapM_eq_some mapped member
  cases s with
  | terminal t =>
      cases found
      exact TupleSet.canonical_singleton t
  | nonterminal n => exact canonical n set occurs found

/-- A sequence begins like its two parts joined, and is known to if both parts are. -/
theorem firstOfSequence_append (canonical : known.CanonicalOn (v ++ w)) :
    firstOfSequence k known (v ++ w) =
      (firstOfSequence k known v).bind fun front =>
        (firstOfSequence k known w).map (front.concat k) := by
  have front : known.CanonicalOn v := fun n set occurs =>
    canonical n set (List.mem_append_left _ occurs)
  have back : known.CanonicalOn w := fun n set occurs =>
    canonical n set (List.mem_append_right _ occurs)
  unfold firstOfSequence
  rw [List.mapM_append]
  cases first : v.mapM (firstOfSymbol known) with
  | none => rfl
  | some sets =>
      cases second : w.mapM (firstOfSymbol known) with
      | none => rfl
      | some more =>
          apply congrArg some
          exact TupleSet.concatAll_append (canonical_of_mapM front first)
            (canonical_of_mapM back second)

/-- The FIRST sets of a grammar are canonical. -/
theorem Grammar.canonicalOn_first (g : Grammar) (k : Nat) (symbols : List Symbol) :
    (g.first k).CanonicalOn symbols := by
  intro n set _ found
  obtain ⟨filled, members⟩ := sound_first g k n set found
  constructor
  · exact filled
  · intro tuple member
    obtain ⟨word, _, rfl⟩ := members tuple member
    exact Tuple.canonical_iff.2 ⟨word.take k, by rw [Tuple.cut]⟩

end Sequences

/-- Joining is concatenation before the cut. Tuples of words are joined to the tuple of the joined words.
For sets of canonical tuples that are not empty, joining is associative and monotone, and its unit is
the set of the empty word, up to the cut; the sets of two lists joined are the sets of the whole list
joined. A sequence of symbols therefore begins like its parts joined, for known sets of this kind and so
for the FIRST sets of every grammar. -/
theorem TupleSet.joining_is_concatenation (k : Nat) :
    (∀ first second : Text,
        Tuple.concat k (.cut k first) (.cut k second) = .cut k (first ++ second)) ∧
      (∀ front back : Tuple, front.Canonical → back.Canonical →
        ∃ first second : Text, Tuple.ofWord (first.map .char) = front ∧
          Tuple.ofWord (second.map .char) = back ∧ Tuple.concat k front back = .cut k (first ++ second)) ∧
      (∀ first second : TupleSet, first.Canonical → second.Canonical →
        HoldsCuts k (first.words * second.words) (first.concat k second)) ∧
      (∀ first second third : TupleSet, first.Canonical → second.Canonical → third.Canonical →
        (first.concat k second).concat k third = first.concat k (second.concat k third)) ∧
      (∀ first second firstLarger secondLarger : TupleSet, first.Canonical → second.Canonical →
        (∀ tuple ∈ first, tuple ∈ firstLarger) → (∀ tuple ∈ second, tuple ∈ secondLarger) →
        ∀ tuple ∈ first.concat k second, tuple ∈ firstLarger.concat k secondLarger) ∧
      (∀ set : TupleSet, set.Canonical →
        epsilon.concat k set = set.clip k ∧ set.concat k epsilon = set.clip k) ∧
      (∀ sets more : List TupleSet, (∀ set ∈ sets ++ more, set.Canonical) →
        concatAll k (sets ++ more) = (concatAll k sets).concat k (concatAll k more)) ∧
      (∀ (known : KnownSets) (v w : List Symbol), known.CanonicalOn (v ++ w) →
        firstOfSequence k known (v ++ w) =
          (firstOfSequence k known v).bind fun front =>
            (firstOfSequence k known w).map (front.concat k)) ∧
      ∀ (g : Grammar) (symbols : List Symbol), (g.first k).CanonicalOn symbols := by
  refine ⟨Tuple.concat_cut k, fun front back one two => ?_, fun _ _ one two => ?_,
    fun _ _ _ => concat_assoc, fun _ _ _ _ one two => concat_mono one.filled two.filled,
    fun _ canonical => ⟨epsilon_concat canonical, concat_epsilon canonical⟩,
    fun sets more canonical => ?_, fun _ _ _ => firstOfSequence_append,
    fun g => g.canonicalOn_first k⟩
  · obtain ⟨first, rfl⟩ := Tuple.canonical_iff.1 one
    obtain ⟨second, rfl⟩ := Tuple.canonical_iff.1 two
    exact ⟨first, second, rfl, rfl, Tuple.concat_eq_cut (Tuple.begins_ofWord_chars k first)
      (Tuple.begins_ofWord_chars k second)⟩
  · exact (one.begins k).concat (two.begins k)
  · exact concatAll_append (fun set member => canonical set (List.mem_append_left _ member))
      fun set member => canonical set (List.mem_append_right _ member)

/-- An empty set is joined as if it held the empty word, and the law of association fails with it. -/
example :
    let letter : TupleSet := .singleton [.char 'a']
    TupleSet.concat 1 (.concat 1 ∅ letter) letter ≠ .concat 1 ∅ (.concat 1 letter letter) := by
  decide

/-- A letter that may be missing. -/
def optional : TupleSet := .ofList [[.char 'a'], .epsilon]

def optionalKnown : KnownSets := (∅ : KnownSets).insert (.named "A") optional

theorem canonical_optional : optional.Canonical := by
  constructor
  · decide
  · intro tuple member
    rcases List.mem_pair.1 (SortedSet.mem_ofList.1 member) with rfl | rfl
    · exact .inr ⟨by decide, by decide⟩
    · exact .inl rfl

theorem canonicalOn_optionalKnown (symbols : List Symbol) : optionalKnown.CanonicalOn symbols := by
  intro n set _ found
  rw [optionalKnown, SortedMap.get?_insert] at found
  split at found
  · exact Option.some.inj found ▸ canonical_optional
  · cases found

/-- Two letters that may be missing, with one character kept of them. -/
theorem joining_is_concatenation_for_optional_letters :
    optional.Canonical ∧ (optional.concat 1 optional).concat 1 optional =
        optional.concat 1 (optional.concat 1 optional) ∧
      TupleSet.epsilon.concat 1 optional = optional.clip 1 ∧
      TupleSet.concatAll 1 [optional, optional] =
        (TupleSet.concatAll 1 [optional]).concat 1 (.concatAll 1 [optional]) ∧
      optionalKnown.CanonicalOn [.nonterminal (.named "A"), .nonterminal (.named "A")] ∧
      firstOfSequence 1 optionalKnown [.nonterminal (.named "A"), .nonterminal (.named "A")] =
        some (optional.concat 1 optional) := by
  obtain ⟨_, _, _, assoc, _, unit, all, sequences, _⟩ := TupleSet.joining_is_concatenation 1
  have canonical := canonical_optional
  have known := canonicalOn_optionalKnown [.nonterminal (.named "A"), .nonterminal (.named "A")]
  refine ⟨canonical, assoc _ _ _ canonical canonical canonical, (unit _ canonical).1,
    all [optional] [optional] (by simpa using canonical), known, ?_⟩
  exact (sequences optionalKnown [.nonterminal (.named "A")] [.nonterminal (.named "A")] known).trans
    (by decide)

end StrongLL
