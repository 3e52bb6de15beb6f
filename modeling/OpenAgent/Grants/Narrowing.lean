import OpenAgent.Grants.Policy

/-!
# Narrowing as a greatest lower bound

Each field of a policy is ordered on its own, and narrowing takes the smaller value of each. A NaN passes the
bounds of a timeout without being comparable, so the laws are those of timeouts that are numbers.
-/

namespace OpenAgent.Grants

open Lib List

/-! ### Limits -/

section Limits

variable {α : Type} {lt : α → α → Bool} {good : α → Prop} {x y z : α} {p a b c : Option α}

structure StrictTotal (lt : α → α → Bool) (good : α → Prop) : Prop where
  irrefl : ∀ x, lt x x = false
  trans : ∀ x y z, lt x y = true → lt y z = true → lt x z = true
  total : ∀ x y, good x → good y → lt x y = true ∨ x = y ∨ lt y x = true

/-- A limit `p` is no wider than `q`. -/
def AtMost (lt : α → α → Bool) (p q : Option α) : Prop :=
  ∀ y, q = some y → ∃ x, p = some x ∧ (x = y ∨ lt x y = true)

def AllGood (good : α → Prop) (p : Option α) : Prop := ∀ x, p = some x → good x

theorem pyMin_or (lt : α → α → Bool) (x y : α) : pyMin lt x y = x ∨ pyMin lt x y = y := by
  unfold pyMin
  split
  · exact .inr rfl
  · exact .inl rfl

theorem pyMin_self (lt : α → α → Bool) (x : α) : pyMin lt x x = x := by
  rcases pyMin_or lt x x with h | h <;> exact h

theorem pyMin_left (lt : α → α → Bool) (x y : α) :
    pyMin lt x y = x ∨ lt (pyMin lt x y) x = true := by
  unfold pyMin
  split
  · rename_i hlt
    exact .inr hlt
  · exact .inl rfl

theorem StrictTotal.pyMin_right (h : StrictTotal lt good) (hx : good x) (hy : good y) :
    pyMin lt x y = y ∨ lt (pyMin lt x y) y = true := by
  unfold pyMin
  split
  · exact .inl rfl
  · rename_i hnot
    rcases h.total x y hx hy with hlt | heq | hgt
    · exact .inr hlt
    · exact .inl heq
    · exact absurd hgt hnot

theorem StrictTotal.asymm (h : StrictTotal lt good) (hxy : lt x y = true) : ¬ lt y x = true := by
  intro hyx
  have hself := h.trans x y x hxy hyx
  simp [h.irrefl x] at hself

theorem StrictTotal.pyMin_comm (h : StrictTotal lt good) (hx : good x) (hy : good y) :
    pyMin lt x y = pyMin lt y x := by
  unfold pyMin
  rcases h.total x y hx hy with hlt | rfl | hgt
  · rw [if_pos hlt, if_neg (h.asymm hlt)]
  · rfl
  · rw [if_pos hgt, if_neg (h.asymm hgt)]

theorem StrictTotal.pyMin_assoc (h : StrictTotal lt good) (hy : good y) (hz : good z) :
    pyMin lt (pyMin lt x y) z = pyMin lt x (pyMin lt y z) := by
  unfold pyMin
  by_cases hyx : lt y x = true
  · rw [if_pos hyx]
    by_cases hzy : lt z y = true
    · rw [if_pos hzy, if_pos (h.trans z y x hzy hyx)]
    · rw [if_neg hzy, if_pos hyx]
  · rw [if_neg hyx]
    by_cases hzy : lt z y = true
    · rw [if_pos hzy]
    · rw [if_neg hzy, if_neg hyx]
      refine if_neg fun hzx => ?_
      rcases h.total y z hy hz with hyz | rfl | hgt
      · exact hyx (h.trans y z x hyz hzx)
      · exact hyx hzx
      · exact hzy hgt

theorem narrowNumber_left (lt : α → α → Bool) (a b : Option α) :
    AtMost lt (narrowNumber lt a b) a := by
  intro x hx
  subst hx
  cases b with
  | none => exact ⟨x, rfl, .inl rfl⟩
  | some y => exact ⟨pyMin lt x y, rfl, pyMin_left lt x y⟩

theorem narrowNumber_right (h : StrictTotal lt good) (ha : AllGood good a) (hb : AllGood good b) :
    AtMost lt (narrowNumber lt a b) b := by
  intro y hy
  subst hy
  cases a with
  | none => exact ⟨y, rfl, .inl rfl⟩
  | some x => exact ⟨pyMin lt x y, rfl, h.pyMin_right (ha x rfl) (hb y rfl)⟩

theorem narrowNumber_greatest (ha : AtMost lt p a) (hb : AtMost lt p b) :
    AtMost lt p (narrowNumber lt a b) := by
  intro m hm
  cases a with
  | none =>
    cases b with
    | none => cases hm
    | some y => exact hb m hm
  | some x =>
    cases b with
    | none => exact ha m hm
    | some y =>
      cases hm
      rcases pyMin_or lt x y with h | h <;> rw [h]
      · exact ha x rfl
      · exact hb y rfl

theorem narrowNumber_self (a : Option α) : narrowNumber lt a a = a := by
  cases a with
  | none => rfl
  | some x => exact congrArg some (pyMin_self lt x)

theorem narrowNumber_comm (h : StrictTotal lt good) (ha : AllGood good a) (hb : AllGood good b) :
    narrowNumber lt a b = narrowNumber lt b a := by
  cases a with
  | none => cases b <;> rfl
  | some x =>
    cases b with
    | none => rfl
    | some y => exact congrArg some (h.pyMin_comm (ha x rfl) (hb y rfl))

theorem narrowNumber_assoc (h : StrictTotal lt good) (hb : AllGood good b) (hc : AllGood good c) :
    narrowNumber lt (narrowNumber lt a b) c = narrowNumber lt a (narrowNumber lt b c) := by
  cases a with
  | none => cases b <;> cases c <;> rfl
  | some x =>
    cases b with
    | none => cases c <;> rfl
    | some y =>
      cases c with
      | none => rfl
      | some z => exact congrArg some (h.pyMin_assoc (hb y rfl) (hc z rfl))

theorem narrowNumber_or (lt : α → α → Bool) (a b : Option α) : narrowNumber lt a b = a ∨ narrowNumber lt a b = b := by
  cases a with
  | none => cases b <;> exact .inr rfl
  | some x =>
    cases b with
    | none => exact .inl rfl
    | some y =>
      rcases pyMin_or lt x y with h | h
      · exact .inl (congrArg some h)
      · exact .inr (congrArg some h)

end Limits

theorem int_strictTotal : StrictTotal (fun x y : Int => decide (x < y)) fun _ => True where
  irrefl x := by simp
  trans x y z hxy hyz := by
    rw [decide_eq_true_eq] at *
    omega
  total x y _ _ := by
    rw [decide_eq_true_eq, decide_eq_true_eq]
    omega

theorem number_strictTotal : StrictTotal Number.lt fun x => x ≠ .nan where
  irrefl x := by cases x <;> simp [Number.lt]
  trans x y z hxy hyz := by
    cases x <;> cases y <;> cases z <;> simp_all [Number.lt]
    exact lt_trans hxy hyz
  total x y hx hy := by
    cases x <;> cases y <;> simp_all [Number.lt]
    exact lt_trichotomy _ _

/-! ### Families -/

section Families

variable {P : Python} {p a b c : Option (List String)}

/-- The families `p` allows are among those of `q`, up to their normal form. -/
def FamiliesWithin (P : Python) (p q : Option (List String)) : Prop :=
  ∀ fs, q = some fs → ∃ gs, p = some gs ∧ ∀ g ∈ gs, P.normalizeFamily g ∈ fs.map P.normalizeFamily

theorem mem_narrowed {outer inner : List String} {g : String} :
    g ∈ outer.filter (fun item => decide (P.normalizeFamily item ∈ inner.map P.normalizeFamily)) ↔
      g ∈ outer ∧ P.normalizeFamily g ∈ inner.map P.normalizeFamily := by
  rw [List.mem_filter, decide_eq_true_eq]

theorem narrowFamilies_left (a b : Option (List String)) : FamiliesWithin P (narrowFamilies P a b) a := by
  intro fs hfs
  subst hfs
  cases b with
  | none => exact ⟨fs, rfl, fun g hg => mem_map_of_mem hg⟩
  | some inner => exact ⟨_, rfl, fun g hg => mem_map_of_mem (mem_narrowed.mp hg).1⟩

theorem narrowFamilies_right (a b : Option (List String)) : FamiliesWithin P (narrowFamilies P a b) b := by
  intro fs hfs
  subst hfs
  cases a with
  | none => exact ⟨fs, rfl, fun g hg => mem_map_of_mem hg⟩
  | some outer => exact ⟨_, rfl, fun g hg => (mem_narrowed.mp hg).2⟩

theorem narrowFamilies_greatest (ha : FamiliesWithin P p a) (hb : FamiliesWithin P p b) :
    FamiliesWithin P p (narrowFamilies P a b) := by
  intro fs hfs
  cases a with
  | none =>
    cases b with
    | none => cases hfs
    | some inner => exact hb fs hfs
  | some outer =>
    cases b with
    | none => exact ha fs hfs
    | some inner =>
      cases hfs
      obtain ⟨gs, hgs, houter⟩ := ha outer rfl
      obtain ⟨gs', hgs', hinner⟩ := hb inner rfl
      cases hgs.symm.trans hgs'
      refine ⟨gs, hgs, fun g hg => ?_⟩
      obtain ⟨f, hf, hsame⟩ := List.mem_map.mp (houter g hg)
      refine List.mem_map.mpr ⟨f, mem_narrowed.mpr ⟨hf, ?_⟩, hsame⟩
      rw [hsame]
      exact hinner g hg

theorem narrowFamilies_self (a : Option (List String)) : narrowFamilies P a a = a := by
  cases a with
  | none => rfl
  | some fs =>
    refine congrArg some (List.filter_eq_self.mpr fun f hf => ?_)
    exact decide_eq_true (mem_map_of_mem hf)

theorem narrowFamilies_assoc (a b c : Option (List String)) :
    narrowFamilies P (narrowFamilies P a b) c = narrowFamilies P a (narrowFamilies P b c) := by
  cases a with
  | none => cases b <;> cases c <;> rfl
  | some outer =>
    cases b with
    | none => cases c <;> rfl
    | some inner =>
      cases c with
      | none => rfl
      | some last =>
        refine congrArg some ?_
        rw [filter_filter]
        refine filter_congr fun f _ => ?_
        rw [← Bool.decide_and, decide_eq_decide]
        constructor
        · rintro ⟨hlast, hinner⟩
          obtain ⟨g, hg, hsame⟩ := List.mem_map.mp hinner
          refine List.mem_map.mpr ⟨g, mem_narrowed.mpr ⟨hg, ?_⟩, hsame⟩
          rw [hsame]
          exact hlast
        · intro h
          obtain ⟨g, hg, hsame⟩ := List.mem_map.mp h
          obtain ⟨hinner, hlast⟩ := mem_narrowed.mp hg
          exact ⟨hsame ▸ hlast, List.mem_map.mpr ⟨g, hinner, hsame⟩⟩

theorem narrowFamilies_comm (a b : Option (List String)) :
    FamiliesWithin P (narrowFamilies P a b) (narrowFamilies P b a) :=
  narrowFamilies_greatest (narrowFamilies_right a b) (narrowFamilies_left a b)

theorem mem_of_narrowFamilies {fs : List String} (h : narrowFamilies P a b = some fs) :
    (∃ gs, a = some gs ∧ fs.Sublist gs) ∨ b = some fs := by
  cases a with
  | none =>
    cases b with
    | none => cases h
    | some inner => exact .inr h
  | some outer =>
    refine .inl ⟨outer, rfl, ?_⟩
    cases b with
    | none =>
      cases h
      exact List.Sublist.refl _
    | some inner =>
      cases h
      exact filter_sublist

end Families

/-! ### Policies -/

variable {P : Python} {p a b c : Policy}

/-- `p` is no wider than `q` in any field. -/
structure Policy.NoWider (P : Python) (p q : Policy) : Prop where
  calls : AtMost (fun x y : Int => decide (x < y)) p.maxToolCalls q.maxToolCalls
  timeout : AtMost Number.lt p.timeoutSeconds q.timeoutSeconds
  families : FamiliesWithin P p.allowedToolFamilies q.allowedToolFamilies

def Policy.Timed (p : Policy) : Prop := p.timeoutSeconds ≠ some .nan

theorem Policy.Timed.allGood (h : p.Timed) : AllGood (fun x => x ≠ Number.nan) p.timeoutSeconds :=
  fun _ hx hnan => h (hnan ▸ hx)

theorem allGood_true (n : Option Int) : AllGood (fun _ : Int => True) n := fun _ _ => trivial

theorem Policy.narrow_left (a b : Policy) : (a.narrow P b).NoWider P a :=
  ⟨narrowNumber_left _ _ _, narrowNumber_left _ _ _,
    narrowFamilies_left _ _⟩

theorem Policy.narrow_right (ha : a.Timed) (hb : b.Timed) : (a.narrow P b).NoWider P b :=
  ⟨narrowNumber_right int_strictTotal (allGood_true _) (allGood_true _),
    narrowNumber_right number_strictTotal ha.allGood hb.allGood, narrowFamilies_right _ _⟩

theorem Policy.narrow_greatest (ha : p.NoWider P a) (hb : p.NoWider P b) : p.NoWider P (a.narrow P b) :=
  ⟨narrowNumber_greatest ha.calls hb.calls, narrowNumber_greatest ha.timeout hb.timeout,
    narrowFamilies_greatest ha.families hb.families⟩

theorem Policy.narrow_self (a : Policy) : a.narrow P a = a := by
  unfold Policy.narrow
  rw [narrowNumber_self, narrowNumber_self, narrowFamilies_self]

theorem Policy.narrow_assoc (hb : b.Timed) (hc : c.Timed) :
    (a.narrow P b).narrow P c = a.narrow P (b.narrow P c) := by
  simp only [Policy.narrow]
  rw [narrowNumber_assoc int_strictTotal (allGood_true _) (allGood_true _),
    narrowNumber_assoc number_strictTotal hb.allGood hc.allGood, narrowFamilies_assoc]

theorem Policy.Accepted.narrow (ha : a.Accepted P) (hb : b.Accepted P) : (a.narrow P b).Accepted P where
  calls n hn := by
    rcases narrowNumber_or (fun x y : Int => decide (x < y)) a.maxToolCalls b.maxToolCalls with h | h
    · exact ha.calls n (h ▸ hn)
    · exact hb.calls n (h ▸ hn)
  timeout x hx := by
    rcases narrowNumber_or Number.lt a.timeoutSeconds b.timeoutSeconds with h | h
    · exact ha.timeout x (h ▸ hx)
    · exact hb.timeout x (h ▸ hx)
  families fs hfs := by
    rcases mem_of_narrowFamilies hfs with ⟨gs, hgs, hsub⟩ | hinner
    · obtain ⟨hnodup, hlength, hgood⟩ := ha.families gs hgs
      exact ⟨hnodup.sublist hsub, Nat.le_trans hsub.length_le hlength,
        fun f hf => hgood f (hsub.subset hf)⟩
    · exact hb.families fs hinner

theorem narrowExecutionPolicy_ok {va vb : Value} (ha : normalizeExecutionPolicy P va = .ok a)
    (hb : normalizeExecutionPolicy P vb = .ok b) : narrowExecutionPolicy P va vb = .ok (a.narrow P b) := by
  unfold narrowExecutionPolicy
  rw [ha, hb]

theorem narrowExecutionPolicy_eq_ok {va vb : Value} {out : Policy}
    (h : narrowExecutionPolicy P va vb = .ok out) : ∃ a b, normalizeExecutionPolicy P va = .ok a ∧
      normalizeExecutionPolicy P vb = .ok b ∧ out = a.narrow P b := by
  unfold narrowExecutionPolicy at h
  cases houter : normalizeExecutionPolicy P va with
  | error e =>
    simp [houter] at h
  | ok outer =>
    cases hinner : normalizeExecutionPolicy P vb with
    | error e =>
      simp [houter, hinner] at h
    | ok inner =>
      rw [houter, hinner] at h
      exact ⟨outer, inner, rfl, rfl, (Except.ok.inj h).symm⟩

end OpenAgent.Grants
