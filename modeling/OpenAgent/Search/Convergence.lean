import OpenAgent.Search.Announcing

/-!
# A consumer that has read the outbox has the right documents

The last row of every live source never deletes it, and the documents of every source whose rows lie
behind the index are those of its row now: so after the last row the index is the one a rebuild would
give. Both hold as long as every operation announces what it changes. One that does not leaves the
index stale for good, since no later pass has anything to read.
-/

namespace OpenAgent.Search

open Lib List

variable {ex : Extractors}

/-! ### What compaction drops -/

section Compaction

variable {κ : Type} [DecidableEq κ] {box : Outbox κ Mark} {through : Nat} {chosen : List Nat}

variable {r : OutboxRow κ Mark}

theorem superseded_le (h : superseded box through r = true) : r.seq ≤ through := by
  simp only [superseded, decide_eq_true_eq] at h
  exact h.1

theorem forgotten_le (h : forgotten box through chosen r = true) :
    r.seq ≤ through := by
  simp only [forgotten, settled, decide_eq_true_eq] at h
  obtain ⟨d, _, _, ⟨_, hd, _⟩, _, hle⟩ := h
  omega

theorem superseded_latest {k : κ} (hr : box.latest k = some r) :
    superseded box through r = false := by
  rw [superseded, decide_eq_false_iff_not]
  rintro ⟨_, newer, hnewer, hsame, hlt, _⟩
  have hkey : newer.key = k := by
    simp only [sameSource, decide_eq_true_eq] at hsame
    rw [hsame.2]
    exact (Outbox.mem_of_latest hr).2
  have hle := Outbox.le_latest hr hnewer hkey
  omega

theorem forgotten_latest {k : κ} (hr : box.latest k = some r)
    (h : forgotten box through chosen r = true) : settled box through r = true := by
  simp only [forgotten, decide_eq_true_eq] at h
  obtain ⟨d, hd, _, hsettled, hsame, hle⟩ := h
  have hkey : d.key = k := by
    simp only [sameSource, decide_eq_true_eq] at hsame
    rw [← hsame.2]
    exact (Outbox.mem_of_latest hr).2
  have hge := Outbox.le_latest hr hd hkey
  obtain rfl := Outbox.eq_of_seq (Outbox.mem_of_latest hr).1 hd (by omega)
  exact hsettled

theorem deletes_of_settled {d : OutboxRow κ Mark} (h : settled box through d = true) :
    d.deletes = true := by
  simp only [settled, decide_eq_true_eq] at h
  exact h.1

end Compaction

/-! ### The invariant -/

def PassInv (ex : Extractors) (C : Canonical) (index : Index) : Option Pass → Prop
  | none => True
  | some (.indexing working rows _) =>
    CaughtUp C.outbox (sourceRow ex C) working.documents working.lastIndexedSeq ∧
      index.lastIndexedSeq ≤ working.lastIndexedSeq ∧ working.lastIndexedSeq ≤ C.outbox.sequence ∧
      rows <+: C.outbox.unread working.lastIndexedSeq
  | some (.committed lastSeq _) => lastSeq ≤ index.lastIndexedSeq
  | some (.superseding through _) => through ≤ index.lastIndexedSeq
  | some (.deleting through _) => through ≤ index.lastIndexedSeq

structure Inv (ex : Extractors) (S : State) : Prop where
  wellFormed : S.canonical.WellFormed
  anchored : S.canonical.Anchored
  tells : Tells S.canonical.outbox (sourceRow ex S.canonical)
  caughtUp : CaughtUp S.canonical.outbox (sourceRow ex S.canonical) S.index.documents S.index.lastIndexedSeq
  behind : S.index.lastIndexedSeq ≤ S.canonical.outbox.sequence
  pass : PassInv ex S.canonical S.index S.pass

theorem inv_init : Inv ex State.init where
  wellFormed := ⟨(fun _ _ h => nomatch h), (fun _ _ h => nomatch h), (fun _ _ h => nomatch h),
    (fun _ h => nomatch h)⟩
  anchored := fun _ _ _ h => nomatch h
  tells := by
    intro key d h
    cases key <;> cases h
  caughtUp := by
    intro key _
    cases key <;> rfl
  behind := Nat.le_refl _
  pass := trivial

def Heard (ex : Extractors) (S : State) : Action → Prop
  | .write operation => Told ex S.canonical S.position operation
  | _ => True

instance (ex : Extractors) (S : State) : (a : Action) → Decidable (Heard ex S a)
  | .write operation => inferInstanceAs (Decidable (Told ex S.canonical S.position operation))
  | .beginPass _ _ | .project | .commit | .checkpoint | .pruneSuperseded | .pruneDeleted _ | .abandon =>
    .isTrue trivial

theorem sequence_le_enqueueAll (box : SearchOutbox) (ns : List (Notice SourceKey Mark)) :
    box.sequence ≤ (box.enqueueAll ns).sequence := by
  obtain ⟨added, hadds⟩ := box.enqueueAll_adds ns
  exact hadds.sequence

theorem Wrote.caughtUp {position p : Nat} {C C' : Canonical} {docs : Dict SourceKey Document}
    (h : Wrote ex position C C') (hle : p ≤ position) (hp : p ≤ C.outbox.sequence)
    (hcaught : CaughtUp C.outbox (sourceRow ex C) docs p) :
    CaughtUp C'.outbox (sourceRow ex C') docs p := by
  obtain ⟨ns, hbox, _, hchanged⟩ := h.announced
  rw [hbox]
  exact hcaught.write hp fun key hne => (hchanged key hne).of_le hle

theorem inv_write {S : State} {operation : Operation} (hinv : Inv ex S)
    (htold : Told ex S.canonical S.position operation) :
    Inv ex { S with canonical := (atomically (perform ex operation) S.canonical).2 } := by
  have hwrote := wrote_atomically hinv.wellFormed hinv.anchored htold
  obtain ⟨ns, hbox, hdeletes, hchanged⟩ := hwrote.announced
  have hgrown := sequence_le_enqueueAll S.canonical.outbox ns
  rw [← hbox] at hgrown
  have hposition : S.index.lastIndexedSeq ≤ S.position := by
    have hpass := hinv.pass
    unfold State.position
    split
    · rename_i working rows batch hindexing
      rw [hindexing] at hpass
      exact hpass.2.1
    · exact Nat.le_refl _
  refine ⟨hwrote.wellFormed, hwrote.anchored, ?_, hwrote.caughtUp hposition hinv.behind hinv.caughtUp,
    hinv.behind.trans hgrown, ?_⟩
  · rw [hbox]
    exact hinv.tells.write hdeletes hchanged
  · have hpass := hinv.pass
    show PassInv ex _ S.index S.pass
    cases hunder : S.pass with
    | none => trivial
    | some pass =>
      rw [hunder] at hpass
      cases pass with
      | indexing working rows batch =>
        obtain ⟨hcaught, hle, hseq, hbegin⟩ := hpass
        have hworking : S.position = working.lastIndexedSeq := by rw [State.position, hunder]
        refine ⟨hwrote.caughtUp hworking.ge hseq hcaught, hle, hseq.trans hgrown, ?_⟩
        rw [hbox]
        exact hbegin.trans (Outbox.unread_enqueueAll _ _ _)
      | committed lastSeq batch => exact hpass
      | superseding through batch => exact hpass
      | deleting through batch => exact hpass

theorem inv_prune {S : State} {p : OutboxRow SourceKey Mark → Bool} {pass : Option Pass} (hinv : Inv ex S)
    (hread : ∀ r ∈ S.canonical.outbox.rows, p r = true → r.seq ≤ S.index.lastIndexedSeq)
    (hlast : ∀ k r, S.canonical.outbox.latest k = some r → r.deletes = false → p r = false)
    (hpass : PassInv ex { S.canonical with outbox := S.canonical.outbox.prune p } S.index pass) :
    Inv ex { S with
      canonical := { S.canonical with outbox := S.canonical.outbox.prune p }
      pass := pass } where
  wellFormed := ⟨hinv.wellFormed.message_session, hinv.wellFormed.tool_session, hinv.wellFormed.fresh,
    fun r hr => hinv.wellFormed.posted r (Outbox.mem_prune.mp hr).1⟩
  anchored := hinv.anchored
  tells := hinv.tells.prune hlast
  caughtUp := hinv.caughtUp.prune hread
  behind := hinv.behind
  pass := hpass

theorem inv_beginPass {S S' : State} {limit : Nat} {incompatible : Bool} (hinv : Inv ex S)
    (hstep : step ex S (.beginPass limit incompatible) = some S') : Inv ex S' := by
  simp only [step] at hstep
  split at hstep
  · cases hstep
  cases hstep
  split
  · have hempty : CaughtUp S.canonical.outbox (sourceRow ex S.canonical) .empty 0 :=
      caughtUp_empty hinv.tells
    exact ⟨hinv.wellFormed, hinv.anchored, hinv.tells, hempty, Nat.zero_le _,
      hempty, Nat.le_refl _, Nat.zero_le _, take_prefix _ _⟩
  · exact ⟨hinv.wellFormed, hinv.anchored, hinv.tells, hinv.caughtUp, hinv.behind,
      hinv.caughtUp, Nat.le_refl _, hinv.behind, take_prefix _ _⟩

theorem inv_project {S S' : State} (hinv : Inv ex S) (hstep : step ex S .project = some S') : Inv ex S' := by
  simp only [step] at hstep
  split at hstep
  · rename_i working row rest batch hindexing
    cases hstep
    have hpass := hinv.pass
    rw [hindexing] at hpass
    obtain ⟨hcaught, hle, _, tail, htail⟩ := hpass
    have hunread : S.canonical.outbox.unread working.lastIndexedSeq = row :: (rest ++ tail) := htail.symm
    have hrow := Outbox.mem_unread.mp (hunread ▸ mem_cons_self)
    refine ⟨hinv.wellFormed, hinv.anchored, hinv.tells, hinv.caughtUp, hinv.behind,
      hcaught.follow hinv.tells hunread, hle.trans hrow.2.le,
      (S.canonical.outbox.numbered row hrow.1).2, ?_⟩
    show rest <+: S.canonical.outbox.unread row.seq
    rw [Outbox.unread_cons hunread]
    exact prefix_append _ _
  · cases hstep

theorem inv_step {S S' : State} {a : Action} (hinv : Inv ex S) (hheard : Heard ex S a)
    (hstep : step ex S a = some S') : Inv ex S' := by
  cases a with
  | write operation =>
    cases hstep
    exact inv_write hinv hheard
  | beginPass limit incompatible => exact inv_beginPass hinv hstep
  | project => exact inv_project hinv hstep
  | commit =>
    simp only [step] at hstep
    split at hstep
    · rename_i working batch hindexing
      cases hstep
      have hpass := hinv.pass
      rw [hindexing] at hpass
      exact ⟨hinv.wellFormed, hinv.anchored, hinv.tells, hpass.1, hpass.2.2.1, Nat.le_refl _⟩
    · cases hstep
  | checkpoint =>
    simp only [step] at hstep
    split at hstep
    · rename_i lastSeq batch hcommitted
      cases hstep
      have hpass := hinv.pass
      rw [hcommitted] at hpass
      refine ⟨hinv.wellFormed, hinv.anchored, hinv.tells, hinv.caughtUp, hinv.behind, ?_⟩
      refine Nat.le_trans ?_ hpass
      have hmem : lastSeq ∈ (S.consumers.set consumerId lastSeq).values :=
        Dict.mem_values_of_get? (Dict.get?_set_self _ _ _)
      cases hmin : (S.consumers.set consumerId lastSeq).values.min? with
      | none => exact Nat.zero_le _
      | some m => exact (List.min?_eq_some_iff.mp hmin).2 lastSeq hmem
    · cases hstep
  | pruneSuperseded =>
    simp only [step] at hstep
    split at hstep
    · rename_i through batch hsuperseding
      cases hstep
      have hpass := hinv.pass
      rw [hsuperseding] at hpass
      refine inv_prune hinv (fun r _ hr => (superseded_le hr).trans hpass) ?_ hpass
      exact fun k r hr _ => superseded_latest hr
    · cases hstep
  | pruneDeleted chosen =>
    simp only [step] at hstep
    split at hstep
    · rename_i through batch hdeleting
      split at hstep
      · cases hstep
        have hpass := hinv.pass
        rw [hdeleting] at hpass
        refine inv_prune hinv (fun r _ hr => (forgotten_le hr).trans hpass) ?_ trivial
        intro k r hr hlive
        by_contra hforgotten
        have hdeletes := deletes_of_settled (forgotten_latest hr (by simpa using hforgotten))
        simp [hlive] at hdeletes
      · cases hstep
    · cases hstep
  | abandon =>
    obtain ⟨pass, _, rfl⟩ := Option.map_eq_some_iff.mp hstep
    exact ⟨hinv.wellFormed, hinv.anchored, hinv.tells, hinv.caughtUp, hinv.behind, trivial⟩

/-! ### Convergence -/

theorem get?_foldl_documents {C : Canonical} {keys : List SourceKey} {docs : Dict SourceKey Document}
    {key : SourceKey} :
    (keys.foldl (fun docs k => (sourceRow ex C k).elim docs (docs.set k)) docs).get? key =
      if key ∈ keys then (sourceRow ex C key).or (docs.get? key) else docs.get? key := by
  induction keys generalizing docs with
  | nil => simp
  | cons k rest ih =>
    rw [foldl_cons, ih]
    cases hk : sourceRow ex C k with
    | none =>
      by_cases heq : key = k
      · subst heq
        simp [hk]
      · simp [heq]
    | some d =>
      by_cases heq : key = k
      · subst heq
        simp [hk]
      · simp [heq, Dict.get?_set_ne _ _ heq]

theorem get?_indexFromScratch (C : Canonical) (key : SourceKey) :
    (indexFromScratch ex C).get? key = sourceRow ex C key := by
  rw [indexFromScratch, get?_foldl_documents]
  cases hdoc : sourceRow ex C key with
  | none => simp
  | some d => simp [mem_sources hdoc]

/-- Whatever was written and however often the index was synchronised, abandoned or reset: once the
consumer has read the whole outbox, its documents are those of a rebuild, provided that every
operation announced what it changed. -/
theorem consumed_index_is_rebuilt (ex : Extractors) (actions : List Action) (S : State)
    (hrun : run (step ex) State.init actions = some S)
    (hheard : Along (step ex) (Heard ex) State.init actions) (hconsumed : S.consumed) (key : SourceKey) :
    S.index.documents.get? key = (indexFromScratch ex S.canonical).get? key := by
  have hinv : Inv ex S := run_invariant_along (fun _ _ _ hI hC h => inv_step hI hC h) inv_init hheard hrun
  rw [get?_indexFromScratch]
  refine hinv.caughtUp key fun r hr _ => ?_
  by_contra hnew
  have hmem : r ∈ S.canonical.outbox.unread S.index.lastIndexedSeq :=
    Outbox.mem_unread.mpr ⟨hr, by omega⟩
  rw [State.consumed] at hconsumed
  simp [hconsumed] at hmem

/-! ### Two runs -/

namespace Sample

def extractors : Extractors := ⟨fun _ => "{}", fun text _ => text, fun _ => ""⟩

theorem reference_valid : (present "host" && present "tenant" && present "agent" && present "s") = true := by
  decide

def reference : SessionRef := ⟨"host", "tenant", "agent", "s", reference_valid⟩

/-- A pass that reads `count` rows. -/
def pass (count : Nat) : List Action :=
  .beginPass 10000 false :: List.replicate count .project ++
    [.commit, .checkpoint, .pruneSuperseded, .pruneDeleted []]

def renamedEarly : List Action :=
  [.write (.accept OpenAgent.Sample.request OpenAgent.Sample.context),
    .write (.renameSession reference OpenAgent.Sample.context " Plans ")] ++ pass 3

def renamedLate : List Action :=
  [.write (.accept OpenAgent.Sample.request OpenAgent.Sample.context)] ++ pass 2 ++
    [.write (.renameSession reference OpenAgent.Sample.context " Plans ")] ++ pass 1

end Sample

theorem early_rename_converges :
    ∃ S, run (step Sample.extractors) State.init Sample.renamedEarly = some S ∧
      ∀ key, S.index.documents.get? key = (indexFromScratch Sample.extractors S.canonical).get? key := by
  have hconsumed : (run (step Sample.extractors) State.init Sample.renamedEarly).map
      (fun S => S.canonical.outbox.unread S.index.lastIndexedSeq) = some [] := by
    rfl
  obtain ⟨S, hrun, hconsumed⟩ := Option.map_eq_some_iff.mp hconsumed
  exact ⟨S, hrun, consumed_index_is_rebuilt Sample.extractors Sample.renamedEarly S hrun
    (by decide) hconsumed⟩

/-- Renaming a session whose message the index has read leaves the old title on the message. -/
theorem late_rename_leaves_a_stale_title :
    ¬ ∀ (ex : Extractors) (actions : List Action) (S : State),
      run (step ex) State.init actions = some S → S.consumed → ∀ key,
        S.index.documents.get? key = (indexFromScratch ex S.canonical).get? key := by
  intro h
  have htrace : (run (step Sample.extractors) State.init Sample.renamedLate).map
      (fun S => (S.canonical.outbox.unread S.index.lastIndexedSeq,
        (S.index.documents.get? (.message 0)).map Document.title,
        ((indexFromScratch Sample.extractors S.canonical).get? (.message 0)).map Document.title)) =
      some ([], some "Untitled chat", some "Plans") := by
    rfl
  obtain ⟨S, hrun, htrace⟩ := Option.map_eq_some_iff.mp htrace
  simp only [Prod.mk.injEq] at htrace
  have hsame := h _ _ S hrun htrace.1 (.message 0)
  rw [hsame, htrace.2.2] at htrace
  exact absurd htrace.2.1 (by decide)

end OpenAgent.Search
