import Mathlib.Init

/-!
# Transactions

A transaction body reads and writes a store and may raise. Run `atomically`, it either commits every
write it made or leaves the store as it found it, so a raised exception has no effect on the store
at all. The rules below take a body apart one bind at a time and carry a fact about two states, or a
field that a body leaves alone, through a sequence of bodies.
-/

namespace Lib

variable {σ ε α β γ : Type}

abbrev Tx (σ ε α : Type) := StateT σ (Except ε) α

def atomically (body : Tx σ ε α) (s : σ) : Except ε α × σ :=
  match body s with
  | .ok (a, s') => (.ok a, s')
  | .error e => (.error e, s)

theorem atomically_ok {body : Tx σ ε α} {s s' : σ} {a : α} :
    atomically body s = (.ok a, s') ↔ body s = .ok (a, s') := by
  unfold atomically
  constructor
  · intro h
    split at h
    · rename_i b t hbody
      simp only [Prod.mk.injEq, Except.ok.injEq] at h
      rw [hbody, h.1, h.2]
    · simp at h
  · intro h
    rw [h]

theorem atomically_error {body : Tx σ ε α} {s s' : σ} {e : ε}
    (h : atomically body s = (.error e, s')) : s' = s := by
  unfold atomically at h
  split at h
  · simp at h
  · simp only [Prod.mk.injEq] at h
    exact h.2.symm

theorem atomically_cases (body : Tx σ ε α) (s : σ) :
    (∃ a s', body s = .ok (a, s') ∧ atomically body s = (.ok a, s')) ∨
      ∃ e, body s = .error e ∧ atomically body s = (.error e, s) := by
  unfold atomically
  cases h : body s with
  | error e => exact .inr ⟨e, rfl, rfl⟩
  | ok r => exact .inl ⟨r.1, r.2, rfl, rfl⟩

namespace Tx

theorem bind_ok {x : Tx σ ε α} {f : α → Tx σ ε β} {s : σ} {r : β × σ} :
    (x >>= f) s = .ok r ↔ ∃ a t, x s = .ok (a, t) ∧ f a t = .ok r := by
  simp only [bind, StateT.bind, Except.bind]
  cases x s with
  | error e => simp
  | ok p =>
    constructor
    · intro h
      exact ⟨p.1, p.2, rfl, h⟩
    · rintro ⟨a, t, hp, hf⟩
      cases hp
      exact hf

theorem pure_ok {a : α} {s : σ} {r : α × σ} :
    (pure a : Tx σ ε α) s = .ok r ↔ r = (a, s) := by
  show Except.ok (a, s) = .ok r ↔ r = (a, s)
  rw [Except.ok.injEq, eq_comm]

theorem set_ok {s s' : σ} {r : PUnit × σ} :
    (set s' : Tx σ ε PUnit) s = .ok r ↔ r = (⟨⟩, s') := by
  show Except.ok (⟨⟩, s') = .ok r ↔ r = (⟨⟩, s')
  rw [Except.ok.injEq, eq_comm]

theorem modify_ok {g : σ → σ} {s : σ} {r : PUnit × σ} :
    (modify g : Tx σ ε PUnit) s = .ok r ↔ r = (⟨⟩, g s) := by
  show Except.ok (⟨⟩, g s) = .ok r ↔ r = (⟨⟩, g s)
  rw [Except.ok.injEq, eq_comm]

theorem throw_ok {e : ε} {s : σ} {r : α × σ} : ¬ (throw e : Tx σ ε α) s = .ok r := by
  simp [throw, throwThe, MonadExceptOf.throw, StateT.lift, bind, Except.bind]

/-- `if c: raise e` -/
def raiseIf (c : Prop) [Decidable c] (e : ε) : Tx σ ε Unit := if c then throw e else pure ()

theorem raiseIf_ok {c : Prop} [Decidable c] {e : ε} {s : σ} {r : Unit × σ} :
    (raiseIf c e : Tx σ ε Unit) s = .ok r ↔ ¬ c ∧ r = ((), s) := by
  unfold raiseIf
  by_cases hc : c
  · simp only [hc, if_true, not_true_eq_false, false_and, iff_false]
    exact throw_ok
  · simp only [hc, if_false, not_false_eq_true, true_and]
    exact pure_ok

def orRaise (o : Option α) (e : ε) : Tx σ ε α :=
  match o with
  | some a => pure a
  | none => throw e

theorem orRaise_ok {o : Option α} {e : ε} {s : σ} {r : α × σ} :
    (orRaise o e : Tx σ ε α) s = .ok r ↔ ∃ a, o = some a ∧ r = (a, s) := by
  cases o with
  | none =>
    constructor
    · intro h
      exact absurd h throw_ok
    · rintro ⟨a, ha, _⟩
      cases ha
  | some a => simpa [orRaise] using pure_ok

/-! ### Taking a sequence of statements apart -/

variable {s : σ} {r : β × σ}

theorem get_bind (f : σ → Tx σ ε β) (s : σ) : ((get : Tx σ ε σ) >>= f) s = f s s := rfl

theorem set_bind (s' : σ) (f : PUnit → Tx σ ε β) (s : σ) :
    ((set s' : Tx σ ε PUnit) >>= f) s = f ⟨⟩ s' := rfl

theorem modify_bind (g : σ → σ) (f : PUnit → Tx σ ε β) (s : σ) :
    ((modify g : Tx σ ε PUnit) >>= f) s = f ⟨⟩ (g s) := rfl

theorem raiseIf_bind_ok {c : Prop} [Decidable c] {e : ε} {f : Unit → Tx σ ε β} :
    (raiseIf c e >>= f) s = .ok r ↔ ¬ c ∧ f () s = .ok r := by
  rw [bind_ok]
  constructor
  · rintro ⟨a, t, hraise, hf⟩
    obtain ⟨hc, hpair⟩ := raiseIf_ok.mp hraise
    cases hpair
    exact ⟨hc, hf⟩
  · rintro ⟨hc, hf⟩
    exact ⟨(), s, raiseIf_ok.mpr ⟨hc, rfl⟩, hf⟩

theorem raiseIf_bind_of_not {c : Prop} [Decidable c] {e : ε} {f : Unit → Tx σ ε β} (hc : ¬ c) (s : σ) :
    (raiseIf c e >>= f) s = f () s := by
  rw [raiseIf, if_neg hc]
  rfl

theorem raiseIf_bind_of {c : Prop} [Decidable c] {e : ε} {f : Unit → Tx σ ε β} (hc : c) (s : σ) :
    (raiseIf c e >>= f) s = .error e := by
  rw [raiseIf, if_pos hc]
  rfl

theorem orRaise_bind_ok {o : Option α} {e : ε} {f : α → Tx σ ε β} :
    (orRaise o e >>= f) s = .ok r ↔ ∃ a, o = some a ∧ f a s = .ok r := by
  cases o with
  | none =>
    simp only [reduceCtorEq, false_and, exists_false, iff_false]
    intro h
    obtain ⟨_, _, hthrow, _⟩ := bind_ok.mp h
    exact throw_ok hthrow
  | some a => simp [orRaise]

/-! ### Carrying a relation through a body -/

/-- Whenever the body returns, `R` relates the states before and after. -/
def Ensures (x : Tx σ ε α) (R : σ → σ → Prop) : Prop := ∀ s a t, x s = .ok (a, t) → R s t

end Tx

end Lib
