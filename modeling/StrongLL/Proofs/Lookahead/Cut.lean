import StrongLL.Lookahead.Tuple
import StrongLL.Text.Basic

/-!
# Cutting words to tuples

A tuple stands for all words with the same first `k` characters. Joining tuples is joining words
before the cut, and it does not matter whether a tuple was cut already: a character that a grammar
spells out enters the computation whole, also for `k = 0`.
-/

namespace StrongLL

set_option autoImplicit false

namespace Tuple

/-- The tuple of a word: its first `k` characters, or the empty word when there are none. -/
def cut (k : Nat) (word : Text) : Tuple := ofWord ((word.take k).map .char)

/-- The tuple and the word agree on their first `k` characters. -/
def Begins (k : Nat) (tuple : Tuple) (word : Text) : Prop :=
  tuple.word.take k = (word.map Terminal.char).take k

theorem word_chars (word : Text) : Tuple.word (word.map .char) = word.map .char := by
  cases word with
  | nil => rfl
  | cons c rest =>
      have plain : ((Terminal.char c :: rest.map .char) == [.epsilon]) = false := by
        simp
      rw [List.map_cons]
      simp only [Tuple.word, isEpsilon, epsilon, plain, Bool.false_eq_true, if_false]

theorem word_ofWord_chars (word : Text) : (ofWord (word.map .char)).word = word.map .char := by
  cases word with
  | nil => rfl
  | cons c rest => exact word_chars (c :: rest)

theorem word_cut (k : Nat) (word : Text) : (cut k word).word = (word.map .char).take k := by
  rw [cut, word_ofWord_chars, List.map_take]

theorem begins_cut (k : Nat) (word : Text) : Begins k (cut k word) word := by
  rw [Begins, word_cut, List.take_take, Nat.min_self]

theorem begins_epsilon (k : Nat) : Begins k epsilon [] := rfl

theorem begins_char (k : Nat) (c : Char) : Begins k [.char c] [c] := rfl

theorem begins_chars (k : Nat) (word : Text) : Begins k (word.map .char) word := by
  rw [Begins, word_chars]

theorem begins_nil (k : Nat) : Begins k [] [] := rfl

theorem take_append_take {Item : Type} (k : Nat) (first second : List Item) :
    (first.take k ++ second.take k).take k = (first ++ second).take k := by
  rw [List.take_append, List.take_append, List.take_take, Nat.min_self, List.take_take,
    List.length_take]
  congr 2
  omega

/-- Joining tuples cuts the joined words. -/
theorem concat_eq_cut {k : Nat} {front back : Tuple} {first second : Text}
    (begin : Begins k front first) (rest : Begins k back second) :
    concat k front back = cut k (first ++ second) := by
  rw [concat, cut, ← take_append_take, begin, rest, take_append_take, List.map_take,
    List.map_append]

theorem concat_cut (k : Nat) (first second : Text) :
    concat k (cut k first) (cut k second) = cut k (first ++ second) :=
  concat_eq_cut (begins_cut k first) (begins_cut k second)

theorem cut_nil (k : Nat) : cut k [] = epsilon := by
  rw [cut, List.take_nil]
  rfl

end Tuple

end StrongLL
