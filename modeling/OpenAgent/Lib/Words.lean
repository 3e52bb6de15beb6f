import Mathlib.Data.List.Basic

/-!
# The words of a text

A text is cut at a separator into words, none of which holds it. Texts are equal when their words are,
and joining two texts with the separator lays the words of one behind those of the other, so that what
a joined text was joined from is lost exactly as far as its parts held the separator themselves.
-/

namespace Lib

open List

def words (sep : Char) (text : String) : List (List Char) := text.toList.splitOn sep

theorem words_injective (sep : Char) : Function.Injective (words sep) := by
  intro a b h
  have hjoin : [sep].intercalate (a.toList.splitOn sep) = [sep].intercalate (b.toList.splitOn sep) :=
    congrArg _ h
  rw [intercalate_splitOn, intercalate_splitOn] at hjoin
  exact String.toList_inj.mp hjoin

theorem words_ne_nil (sep : Char) (text : String) : words sep text ≠ [] := splitOn_ne_nil _ _

theorem words_join (sep : Char) (a b : String) :
    words sep (a ++ String.ofList [sep] ++ b) = words sep a ++ words sep b := by
  rw [words, String.toList_append, String.toList_append, String.toList_ofList, append_assoc,
    singleton_append, splitOn_append_cons_self]
  rfl

theorem words_of_not_mem {sep : Char} {text : String} (h : sep ∉ text.toList) :
    words sep text = [text.toList] :=
  splitOn_eq_singleton h

end Lib
