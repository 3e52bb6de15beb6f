import Mathlib.Data.List.Infix

/-!
# Text

Cutting a text, looking for a mark in it the way SQL does, and looking for a token in its lower-case
form. The two searches fold letters differently, but a text that is found to hold a mark holds every
token of the mark in its lower-case form, too.
-/

namespace Lib

open List

/-- The first `n` characters of a text. -/
def clip (n : Nat) (text : String) : String := String.ofList (text.toList.take n)

/-- `word in text` -/
def occurs (word : List Char) : List Char → Bool
  | [] => word.isEmpty
  | c :: rest => word.isPrefixOf (c :: rest) || occurs word rest

/-- The place where a word first occurs: `text.find(word)`. -/
def find (word : List Char) : List Char → Option Nat
  | [] => if word.isEmpty then some 0 else none
  | c :: rest => if word.isPrefixOf (c :: rest) then some 0 else (find word rest).map (· + 1)

/-- `text.find(word, start)` -/
def findFrom (word text : List Char) (start : Nat) : Option Nat :=
  (find word (text.drop start)).map (· + start)

/-- `LIKE '%mark%'`, for a mark without wildcards; letters of ASCII match in either case. -/
def like (mark text : String) : Bool :=
  occurs (mark.toList.map Char.toLower) (text.toList.map Char.toLower)

/-- A lower-case form of Unicode text. Beyond ASCII a letter may have any form, one that depends on its
neighbours included; what is ASCII becomes lower case in place. -/
structure LowerCase where
  lower : List Char → List Char
  ascii : ∀ front word back, (∀ c ∈ word, c.toNat < 128) →
    ∃ front' back', lower (front ++ word ++ back) = front' ++ word.map Char.toLower ++ back'

def LowerCase.asciiOnly : LowerCase where
  lower := List.map Char.toLower
  ascii front word back _ :=
    ⟨front.map Char.toLower, back.map Char.toLower, by rw [List.map_append, List.map_append]⟩

/-- `token in text.lower()` -/
def LowerCase.has (L : LowerCase) (token text : String) : Bool :=
  occurs token.toList (L.lower text.toList)

variable {text word : List Char}

attribute [local simp] occurs find

theorem occurs_iff : occurs word text = true ↔ word <:+: text := by
  induction text with
  | nil => simp [occurs]
  | cons c rest ih => simp [occurs, ih, infix_cons_iff]

theorem find_some {i : Nat} (h : find word text = some i) :
    word <+: text.drop i ∧ i ≤ text.length ∧ ∀ j, j < i → ¬ word <+: text.drop j := by
  induction text generalizing i with
  | nil =>
    rw [find] at h
    split at h
    · cases h
      rename_i hempty
      rw [List.isEmpty_iff.mp hempty]
      exact ⟨List.nil_prefix, Nat.le_refl _, fun j hj => absurd hj (Nat.not_lt_zero j)⟩
    · cases h
  | cons c rest ih =>
    rw [find] at h
    split at h
    · rename_i hbegin
      cases h
      exact ⟨List.isPrefixOf_iff_prefix.mp hbegin, Nat.zero_le _, fun j hj => absurd hj (Nat.not_lt_zero j)⟩
    · rename_i hbegin
      obtain ⟨k, hk, rfl⟩ := Option.map_eq_some_iff.mp h
      obtain ⟨hthere, hle, hfirst⟩ := ih hk
      refine ⟨hthere, Nat.succ_le_succ hle, fun j hj => ?_⟩
      cases j with
      | zero => exact fun hzero => hbegin (List.isPrefixOf_iff_prefix.mpr hzero)
      | succ j => exact hfirst j (by omega)

theorem find_none (h : find word text = none) (i : Nat) (hi : i ≤ text.length) :
    ¬ word <+: text.drop i := by
  induction text generalizing i with
  | nil =>
    rw [find] at h
    split at h
    · cases h
    · rename_i hempty
      rw [drop_nil, prefix_nil]
      exact fun hnil => hempty (List.isEmpty_iff.mpr hnil)
  | cons c rest ih =>
    rw [find] at h
    split at h
    · cases h
    · rename_i hbegin
      cases i with
      | zero => exact fun hzero => hbegin (List.isPrefixOf_iff_prefix.mpr hzero)
      | succ i => exact ih (Option.map_eq_none_iff.mp h) i (Nat.le_of_succ_le_succ hi)

theorem find_append {i : Nat} (h : find word text = some i) (more : List Char) :
    find word (text ++ more) = some i := by
  induction text generalizing i with
  | nil =>
    obtain ⟨hfront, hle, -⟩ := find_some h
    obtain rfl := Nat.le_zero.mp hle
    obtain rfl := List.prefix_nil.mp hfront
    cases more <;> rfl
  | cons c rest ih =>
    rw [find] at h
    rw [cons_append, find]
    split at h
    · rename_i hbegin
      obtain ⟨back, hback⟩ := List.isPrefixOf_iff_prefix.mp hbegin
      have hfront : word <+: c :: (rest ++ more) :=
        ⟨back ++ more, by rw [← append_assoc, hback, cons_append]⟩
      rw [if_pos (List.isPrefixOf_iff_prefix.mpr hfront), h]
    · rename_i hbegin
      obtain ⟨k, hk, rfl⟩ := Option.map_eq_some_iff.mp h
      obtain ⟨hthere, -, -⟩ := find_some hk
      have hshort : word.length ≤ (c :: rest).length := by
        have hle := hthere.length_le
        rw [length_drop] at hle
        rw [length_cons]
        omega
      rw [if_neg, ih hk, Option.map_some]
      intro hlong
      apply hbegin
      apply List.isPrefixOf_iff_prefix.mpr
      exact prefix_of_prefix_length_le (List.isPrefixOf_iff_prefix.mp hlong)
        (prefix_append (c :: rest) more) hshort

theorem find_append_none {c : Char} (h : find [c] text = none) (more : List Char) :
    find [c] (text ++ more) = (find [c] more).map (· + text.length) := by
  induction text with
  | nil => simp
  | cons d rest ih =>
    rw [find] at h
    split at h
    · cases h
    · rename_i hbegin
      rw [cons_append, find, if_neg, ih (Option.map_eq_none_iff.mp h), Option.map_map]
      · rfl
      · simpa [List.isPrefixOf] using hbegin

theorem toList_clip (n : Nat) (text : String) : (clip n text).toList = text.toList.take n :=
  String.toList_ofList

theorem toLower_cases (c : Char) :
    c.toLower = c ∨ 65 ≤ c.toNat ∧ c.toNat ≤ 90 ∧ c.toLower.toNat = c.toNat + 32 := by
  by_cases h : c.val ≥ 'A'.val ∧ c.val ≤ 'Z'.val
  · have hge : 65 ≤ c.toNat := UInt32.le_iff_toNat_le.mp h.1
    have hle : c.toNat ≤ 90 := UInt32.le_iff_toNat_le.mp h.2
    have hval : c.toLower.val = c.val + 32 := by
      delta Char.toLower
      rw [dif_pos h]
      rfl
    refine .inr ⟨hge, hle, ?_⟩
    show c.toLower.val.toNat = c.val.toNat + 32
    have hsmall : c.val.toNat ≤ 90 := hle
    rw [hval, UInt32.toNat_add, show (32 : UInt32).toNat = 32 from rfl]
    omega
  · left
    delta Char.toLower
    exact dif_neg h

theorem ascii_of_toLower {c : Char} (h : c.toLower.toNat < 128) : c.toNat < 128 := by
  rcases toLower_cases c with hsame | ⟨-, hle, -⟩
  · rwa [hsame] at h
  · omega

theorem toLower_eq_space {c : Char} (h : c.toLower = ' ') : c = ' ' := by
  rcases toLower_cases c with hsame | ⟨hge, -, hmoved⟩
  · rwa [hsame] at h
  · rw [h, show ' '.toNat = 32 from rfl] at hmoved
    omega

theorem like_iff {mark text : String} :
    like mark text = true ↔
      ∃ word, word <:+: text.toList ∧ word.map Char.toLower = mark.toList.map Char.toLower := by
  rw [like, occurs_iff, infix_map_iff]
  constructor
  · rintro ⟨word, hword, hmark⟩
    exact ⟨word, hword, hmark.symm⟩
  · rintro ⟨word, hword, hmark⟩
    exact ⟨word, hword, hmark.symm⟩

theorem LowerCase.has_of_like (L : LowerCase) {mark token text : String} {n : Nat}
    (hascii : ((mark.toList.map Char.toLower).all fun c => decide (c.toNat < 128)) = true)
    (htoken : token.toList <:+: mark.toList.map Char.toLower) (h : like mark (clip n text) = true) :
    L.has token text = true := by
  obtain ⟨word, hword, hmark⟩ := like_iff.mp h
  rw [toList_clip] at hword
  obtain ⟨front, back, hsplit⟩ := hword.trans (List.take_prefix n text.toList).isInfix
  have hplain : ∀ c ∈ word, c.toNat < 128 := by
    intro c hc
    apply ascii_of_toLower
    apply of_decide_eq_true
    apply List.all_eq_true.mp hascii
    rw [← hmark]
    exact mem_map_of_mem hc
  obtain ⟨front', back', hlower⟩ := L.ascii front word back hplain
  rw [LowerCase.has, occurs_iff, ← hsplit, hlower, hmark]
  exact htoken.trans (infix_append front' _ back')

theorem count_blank_of_like {mark text : String} (h : like mark text = true) :
    mark.toList.count ' ' ≤ text.toList.count ' ' := by
  have hcount : ∀ l : List Char, (l.map Char.toLower).count ' ' = l.count ' ' := by
    intro l
    rw [count_eq_countP, countP_map, count_eq_countP]
    apply countP_congr
    intro c _
    simp only [Function.comp, beq_iff_eq]
    exact ⟨toLower_eq_space, fun hc => by rw [hc]; rfl⟩
  obtain ⟨word, hword, hmark⟩ := like_iff.mp h
  calc mark.toList.count ' ' = word.count ' ' := by rw [← hcount mark.toList, ← hmark, hcount]
    _ ≤ text.toList.count ' ' := hword.count_le ' '

end Lib
