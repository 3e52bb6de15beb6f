import Mathlib.Data.Fintype.Pi

/-!
# Restoring the vault

The vault is a git repository. A restore commits what is pending, moves the branch to the wanted commit with a
hard reset, moves it back with a soft one, and commits the difference. Every git command may fail or be killed at
its time limit, and not every result is looked at.
-/

namespace OpenAgent.Vault

variable {Path Blob : Type}

/-- The files of a commit, of the index or of the working tree, without those that git ignores. -/
abbrev Tree (Path Blob : Type) := Path → Option Blob

inductive Commit (Path Blob : Type)
  | mk (parents : List (Commit Path Blob)) (tree : Tree Path Blob)

def Commit.parents : Commit Path Blob → List (Commit Path Blob)
  | ⟨parents, _⟩ => parents

def Commit.tree : Commit Path Blob → Tree Path Blob
  | ⟨_, tree⟩ => tree

/-- A commit and its ancestors. -/
inductive Commit.Reaches : Commit Path Blob → Commit Path Blob → Prop
  | refl (c : Commit Path Blob) : Reaches c c
  | step {c p b : Commit Path Blob} : p ∈ c.parents → Reaches p b → Reaches c b

/-- The branch's tip, the index and the working tree. -/
structure Repo (Path Blob : Type) where
  tip : Commit Path Blob
  index : Tree Path Blob
  worktree : Tree Path Blob

/-- How a git command ends: it ran, it failed and changed nothing, or it was killed at its time limit, before or
after its work was done. -/
inductive Outcome
  | ran
  | failed
  | killed (done : Bool)
  deriving DecidableEq

def Outcome.done : Outcome → Bool
  | ran => true
  | failed => false
  | killed done => done

/-- The call raises `TimeoutExpired`. -/
def Outcome.raises : Outcome → Bool
  | killed _ => true
  | _ => false

/-- The commands of a restore, in their order. -/
structure Outcomes where
  status : Outcome
  add : Outcome
  staged : Outcome
  checkpoint : Outcome
  verify : Outcome
  head : Outcome
  hard : Outcome
  soft : Outcome
  restaged : Outcome
  commit : Outcome
  recover : Outcome

section Commands

variable [DecidableEq (Tree Path Blob)]

/-- `git add -A` -/
def Repo.add (o : Outcome) (r : Repo Path Blob) : Repo Path Blob :=
  if o.done then { r with index := r.worktree } else r

/-- `git diff --cached --quiet` exits with 0. -/
def Repo.quiet (o : Outcome) (r : Repo Path Blob) : Bool := decide (o = .ran ∧ r.index = r.tip.tree)

/-- `git commit`, which fails when nothing is staged. -/
def Repo.commit (o : Outcome) (r : Repo Path Blob) : Repo Path Blob :=
  if o.done ∧ r.index ≠ r.tip.tree then { r with tip := ⟨[r.tip], r.index⟩ } else r

/-- `VaultGit.has_pending` -/
def hasPending (o : Outcomes) (r : Repo Path Blob) : Bool :=
  decide (o.status = .ran ∧ (r.index ≠ r.tip.tree ∨ r.worktree ≠ r.index))

/-- `VaultGit.commit_all` -/
def commitAll (o : Outcomes) (r : Repo Path Blob) : Repo Path Blob :=
  let added := r.add o.add
  if o.add.raises || o.staged.raises || added.quiet o.staged then added else added.commit o.checkpoint

end Commands

/-! ### What is asked of a restore -/

/-- Some commit reachable from here has this for the file. -/
def Commit.Holds (c : Commit Path Blob) (p : Path) (content : Option Blob) : Prop :=
  ∃ b, c.Reaches b ∧ b.tree p = content

def Repo.Pending (r : Repo Path Blob) (p : Path) : Prop := r.worktree p ≠ r.tip.tree p

/-- The branch has not left its history, and each pending edit is in the working tree or in that history. -/
structure Keeps (r r' : Repo Path Blob) : Prop where
  branch : r'.tip.Reaches r.tip
  edits : ∀ p, r.Pending p → r'.worktree p = r.worktree p ∨ r'.tip.Holds p (r.worktree p)

/-! ### When a restore does it -/

/-- After it the branch is left where it is. -/
def Outcomes.Strands (o : Outcomes) : Prop :=
  o.hard.raises = true ∨ o.soft.done = false ∧
    (o.soft.raises = true ∨ o.restaged ≠ .failed ∨ o.commit.raises = true ∨ o.recover.done = false)

/-- After it the last hard reset does its work as well. -/
def Outcomes.Recovers (o : Outcomes) : Prop :=
  o.hard = .ran ∧ o.restaged.raises = false ∧ o.recover.done = true ∧
    (o.soft = .ran ∧ o.commit = .failed ∨ o.soft = .failed ∧ o.restaged = .failed ∧ o.commit.raises = false)

/-- The checkpoint is made if anything is staged. -/
def Outcomes.Checkpoints (o : Outcomes) : Prop :=
  o.status = .ran ∧ o.add.raises = false ∧ o.staged.raises = false ∧ o.checkpoint.done = true

/-- The edit of a file is in the checkpoint. -/
def Outcomes.Commits (o : Outcomes) (r : Repo Path Blob) (p : Path) : Prop :=
  o.Checkpoints ∧ (o.add = .ran ∨ r.index p = r.worktree p)

/-- The file is tracked when the hard reset comes. -/
def Outcomes.Tracks (o : Outcomes) (r : Repo Path Blob) (p : Path) : Prop :=
  if o.status = .ran ∧ o.add.done = true then r.worktree p ≠ none else r.index p ≠ none

/-- The hard reset leaves the file as it is. -/
def Outcomes.Spares (o : Outcomes) (r : Repo Path Blob) (c : Commit Path Blob) (p : Path) : Prop :=
  c.tree p = r.worktree p ∨ ¬ o.Tracks r p ∧ c.tree p = none

/-- A new commit's history is its own tree and its parent's history. -/
theorem Commit.holds_mk {c : Commit Path Blob} {tree : Tree Path Blob} {p : Path} {content : Option Blob} :
    (Commit.mk [c] tree).Holds p content ↔ tree p = content ∨ c.Holds p content := by
  constructor
  · rintro ⟨b, hreach, hb⟩
    cases hreach with
    | refl => exact .inl hb
    | step hparent hrest =>
      rw [Commit.parents, List.mem_singleton] at hparent
      subst hparent
      exact .inr ⟨b, hrest, hb⟩
  · rintro (htree | ⟨b, hreach, hb⟩)
    · exact ⟨_, .refl _, htree⟩
    · exact ⟨b, .step List.mem_cons_self hreach, hb⟩

variable [DecidableEq (Tree Path Blob)] {o : Outcomes} {r s : Repo Path Blob} {c : Commit Path Blob}

/-- What the service hands to git's restore: the same working tree, and of each pending file an index entry and a
history as the outcomes say. -/
structure Prepared (o : Outcomes) (r s : Repo Path Blob) : Prop where
  worktree : s.worktree = r.worktree
  reaches : s.tip.Reaches r.tip
  tracked : ∀ p, r.Pending p → (s.index p ≠ none ↔ o.Tracks r p)
  holds : ∀ p, r.Pending p → (s.tip.Holds p (r.worktree p) ↔ o.Commits r p ∨ r.tip.Holds p (r.worktree p))
  own : ∀ p, r.Pending p → s.tip.tree p = r.worktree p → o.Commits r p
  absent : ∀ p, r.Pending p → ¬ o.Tracks r p → (s.tip.tree p = none ↔ r.tip.tree p = none ∨ o.Checkpoints)

omit [DecidableEq (Tree Path Blob)] in
theorem index_add_iff {add : Outcome} (hadd : add.raises = false) (p : Path) :
    (r.add add).index p = r.worktree p ↔ add = .ran ∨ r.index p = r.worktree p := by
  cases add with
  | ran => simp [Repo.add, Outcome.done]
  | failed => simp [Repo.add, Outcome.done]
  | killed done => cases hadd

omit [DecidableEq (Tree Path Blob)] in
/-- Without a checkpoint there is no more in the history than before. -/
theorem Prepared.of_unmade (hworktree : s.worktree = r.worktree) (htip : s.tip = r.tip)
    (htracked : ∀ p, r.Pending p → (s.index p ≠ none ↔ o.Tracks r p))
    (hcommits : ∀ p, r.Pending p → ¬ o.Commits r p)
    (habsent : ∀ p, r.Pending p → ¬ o.Tracks r p → o.Checkpoints → r.tip.tree p = none) : Prepared o r s where
  worktree := hworktree
  reaches := htip ▸ .refl _
  tracked := htracked
  holds p hp := by rw [htip, or_iff_right (hcommits p hp)]
  own p hp htree := absurd htree.symm (htip ▸ hp)
  absent p hp huntracked := by
    rw [htip]
    exact ⟨.inl, fun h => h.elim (fun h => h) (habsent p hp huntracked)⟩

theorem prepared_commitAll (hstatus : o.status = .ran) : Prepared o r (commitAll o r) := by
  have htracked : ∀ p, (r.add o.add).index p ≠ none ↔ o.Tracks r p := by
    intro p
    unfold Repo.add Outcomes.Tracks
    split <;> simp_all
  have hworktree : (r.add o.add).worktree = r.worktree := by
    unfold Repo.add
    split <;> rfl
  have htip : (r.add o.add).tip = r.tip := by
    unfold Repo.add
    split <;> rfl
  -- an index like the tip's tree has no edit and tracks what the tip has
  have hclean : (r.add o.add).index = r.tip.tree → Prepared o r (r.add o.add) := by
    intro hsame
    refine .of_unmade hworktree htip (fun p _ => htracked p) ?_ ?_
    · rintro p hp ⟨⟨-, hadd, -⟩, hindex⟩
      apply hp
      rw [← hsame]
      exact ((index_add_iff hadd p).mpr hindex).symm
    · intro p _ huntracked _
      rw [← hsame]
      exact not_not.mp fun h => huntracked ((htracked p).mp h)
  have hunmade : ¬ o.Checkpoints → Prepared o r (r.add o.add) := by
    intro hnone
    exact .of_unmade hworktree htip (fun p _ => htracked p) (fun p _ h => hnone h.1) (fun p _ _ h => absurd h hnone)
  unfold commitAll
  dsimp only
  split
  · rename_i hstop
    simp only [Bool.or_eq_true, Repo.quiet, decide_eq_true_eq, htip] at hstop
    rcases hstop with (hadd | hstaged) | ⟨-, hsame⟩
    · exact hunmade fun h => absurd hadd (by simp [h.2.1])
    · exact hunmade fun h => absurd hstaged (by simp [h.2.2.1])
    · exact hclean hsame
  · rename_i hgo
    simp only [Bool.or_eq_true, not_or, Bool.not_eq_true] at hgo
    unfold Repo.commit
    split
    · rename_i hmade
      rw [htip] at hmade ⊢
      have hcheckpoints : o.Checkpoints := ⟨hstatus, hgo.1.1, hgo.1.2, hmade.1⟩
      have hown : ∀ p, (r.add o.add).index p = r.worktree p ↔ o.Commits r p := fun p =>
        (index_add_iff hgo.1.1 p).trans (and_iff_right hcheckpoints).symm
      constructor
      · exact hworktree
      · exact .step List.mem_cons_self (.refl _)
      · exact fun p _ => htracked p
      · exact fun p _ => Commit.holds_mk.trans (or_congr_left (hown p))
      · exact fun p _ htree => (hown p).mp htree
      · intro p _ huntracked
        exact iff_of_true (not_not.mp fun h => huntracked ((htracked p).mp h)) (.inr hcheckpoints)
    · rename_i hmissed
      rw [htip] at hmissed
      by_cases hdone : o.checkpoint.done = true
      · exact hclean (not_not.mp fun hne => hmissed ⟨hdone, hne⟩)
      · exact hunmade fun h => hdone h.2.2.2

theorem prepared (o : Outcomes) (r : Repo Path Blob) :
    Prepared o r (if hasPending o r then commitAll o r else r) := by
  split
  · rename_i hpending
    exact prepared_commitAll (of_decide_eq_true hpending).1
  · rename_i hnone
    by_cases hstatus : o.status = .ran
    · have hsame : r.index = r.tip.tree ∧ r.worktree = r.index := by
        simpa [hasPending, hstatus, not_or] using hnone
      have hclean : ∀ p, ¬ r.Pending p := fun p hp => hp (by rw [hsame.2, hsame.1])
      exact .of_unmade rfl rfl (fun p hp => absurd hp (hclean p)) (fun p hp => absurd hp (hclean p))
        fun p hp => absurd hp (hclean p)
    · refine .of_unmade rfl rfl (fun p _ => ?_) (fun p _ h => hstatus h.1.1) fun p _ _ h => absurd h.1 hstatus
      simp [Outcomes.Tracks, hstatus]

/-- The working tree after a hard reset to the commit. -/
def Repo.swept (s : Repo Path Blob) (c : Commit Path Blob) : Tree Path Blob := fun p =>
  if (s.index p).isSome || (c.tree p).isSome then c.tree p else s.worktree p

/-- And after another one to the tip from there. -/
def Repo.sweptTwice (s : Repo Path Blob) (c : Commit Path Blob) : Tree Path Blob := fun p =>
  if (c.tree p).isSome || (s.tip.tree p).isSome then s.tip.tree p else s.swept c p

/-- How a restore ends whose hard reset did its work. -/
inductive Ends (o : Outcomes) (s : Repo Path Blob) (c : Commit Path Blob) : Repo Path Blob → Prop
  | stranded (h : o.Strands) (index : Tree Path Blob) : Ends o s c ⟨c, index, s.swept c⟩
  | back (h : ¬ o.Strands) (hrecovers : ¬ o.Recovers ∨ c.tree = s.tip.tree) (index : Tree Path Blob) :
      Ends o s c ⟨s.tip, index, s.swept c⟩
  | restored (h : ¬ o.Strands) (hrecovers : ¬ o.Recovers) (index : Tree Path Blob) :
      Ends o s c ⟨⟨[s.tip], c.tree⟩, index, s.swept c⟩
  | recovered (h : ¬ o.Strands) (hrecovers : o.Recovers) (index : Tree Path Blob) :
      Ends o s c ⟨s.tip, index, s.sweptTwice c⟩

end OpenAgent.Vault
