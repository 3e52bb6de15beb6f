import Mathlib.Logic.Basic

/-!
# Runs of a transition system

A system moves by labelled steps that may or may not be enabled. A run is a list of labels taken one
after another, and it exists only where every label is enabled in its turn. The rules carry an
invariant, or a reflexive and transitive relation, from one step to every run; the guarded forms do
so for the runs all of whose steps meet a condition.
-/

namespace Lib

variable {σ α : Type}

def run (step : σ → α → Option σ) : σ → List α → Option σ
  | s, [] => some s
  | s, a :: rest => (step s a).bind fun s' => run step s' rest

@[simp] theorem run_nil (step : σ → α → Option σ) (s : σ) : run step s [] = some s := rfl

variable {step : σ → α → Option σ}

theorem run_cons {s t : σ} {a : α} {rest : List α} :
    run step s (a :: rest) = some t ↔ ∃ s', step s a = some s' ∧ run step s' rest = some t := by
  simp [run, Option.bind_eq_some_iff]

theorem run_append {s t : σ} {xs ys : List α} :
    run step s (xs ++ ys) = some t ↔ ∃ m, run step s xs = some m ∧ run step m ys = some t := by
  induction xs generalizing s with
  | nil => simp
  | cons a rest ih =>
    simp only [List.cons_append, run_cons, ih]
    constructor
    · rintro ⟨s', hstep, m, hrest, hys⟩
      exact ⟨m, ⟨s', hstep, hrest⟩, hys⟩
    · rintro ⟨m, ⟨s', hstep, hrest⟩, hys⟩
      exact ⟨s', hstep, m, hrest, hys⟩

/-- Every step of the run is taken from a state in which it meets `C`. -/
def Along (step : σ → α → Option σ) (C : σ → α → Prop) : σ → List α → Prop
  | _, [] => True
  | s, a :: rest => C s a ∧ ∀ s', step s a = some s' → Along step C s' rest

instance decidableAlong {step : σ → α → Option σ} {C : σ → α → Prop} [∀ s a, Decidable (C s a)] :
    (s : σ) → (as : List α) → Decidable (Along step C s as)
  | _, [] => .isTrue trivial
  | s, a :: rest =>
    match h : step s a with
    | none => decidable_of_iff (C s a) (by simp [Along, h])
    | some s' =>
      have : Decidable (Along step C s' rest) := decidableAlong s' rest
      decidable_of_iff (C s a ∧ Along step C s' rest) (by simp [Along, h])

theorem along_append {C : σ → α → Prop} {s : σ} {xs ys : List α} :
    Along step C s (xs ++ ys) ↔
      Along step C s xs ∧ ∀ m, run step s xs = some m → Along step C m ys := by
  induction xs generalizing s with
  | nil => simp [Along]
  | cons a rest ih =>
    simp only [List.cons_append, Along, ih, run_cons]
    constructor
    · rintro ⟨hC, h⟩
      refine ⟨⟨hC, fun s' hs' => (h s' hs').1⟩, ?_⟩
      rintro m ⟨s', hs', hm⟩
      exact (h s' hs').2 m hm
    · rintro ⟨⟨hC, hrest⟩, hys⟩
      exact ⟨hC, fun s' hs' => ⟨hrest s' hs', fun m hm => hys m ⟨s', hs', hm⟩⟩⟩

variable {as : List α}

theorem along_iff {C : σ → α → Prop} {s : σ} :
    Along step C s as ↔
      ∀ front a m, front ++ [a] <+: as → run step s front = some m → C m a := by
  constructor
  · rintro h front a m ⟨rest, rfl⟩ hm
    exact ((along_append.mp (along_append.mp h).1).2 m hm).1
  · intro h
    induction as generalizing s with
    | nil => trivial
    | cons a rest ih =>
      refine ⟨h [] a s ⟨rest, rfl⟩ rfl, fun s' hs' => ih ?_⟩
      rintro front b m ⟨last, rfl⟩ hm
      exact h (a :: front) b m ⟨last, rfl⟩ (run_cons.mpr ⟨s', hs', hm⟩)

/-- An invariant kept by every step that meets `C` holds at the end of every run whose steps do. -/
theorem run_invariant_along {C : σ → α → Prop} {I : σ → Prop}
    (hstep : ∀ s a s', I s → C s a → step s a = some s' → I s') {s t : σ} (hs : I s)
    (hC : Along step C s as) (hrun : run step s as = some t) : I t := by
  induction as generalizing s with
  | nil =>
    cases hrun
    exact hs
  | cons a rest ih =>
    obtain ⟨s', hstep', hrest⟩ := run_cons.mp hrun
    exact ih (hstep s a s' hs hC.1 hstep') (hC.2 s' hstep') hrest

theorem along_true (step : σ → α → Option σ) (s : σ) (as : List α) :
    Along step (fun _ _ => True) s as := by
  induction as generalizing s with
  | nil => trivial
  | cons a rest ih => exact ⟨trivial, fun s' _ => ih s'⟩

theorem along_of_forall {P : α → Prop} {s : σ} (h : ∀ a ∈ as, P a)
    : Along step (fun _ a => P a) s as := by
  induction as generalizing s with
  | nil => trivial
  | cons a rest ih =>
    refine ⟨h a List.mem_cons_self, fun s' _ => ih fun b hb => ?_⟩
    exact h b (List.mem_cons_of_mem a hb)

theorem run_invariant {I : σ → Prop} (hstep : ∀ s a s', I s → step s a = some s' → I s') {s t : σ}
    (hs : I s) (hrun : run step s as = some t) : I t :=
  run_invariant_along (C := fun _ _ => True) (fun s a s' hI _ h => hstep s a s' hI h) hs
    (along_true step s as) hrun

theorem run_relation {I : σ → Prop} {R : σ → σ → Prop} (hI : ∀ s a s', I s → step s a = some s' → I s')
    (hrefl : ∀ s, R s s) (htrans : ∀ {a b c}, R a b → R b c → R a c)
    (hR : ∀ s a s', I s → step s a = some s' → R s s') {s t : σ} (hs : I s)
    (hrun : run step s as = some t) : R s t := by
  induction as generalizing s with
  | nil =>
    cases hrun
    exact hrefl _
  | cons a rest ih =>
    obtain ⟨s', hstep, hrest⟩ := run_cons.mp hrun
    exact htrans (hR s a s' hs hstep) (ih (hI s a s' hs hstep) hrest)

end Lib
