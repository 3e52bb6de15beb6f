import OpenAgent.Models.Resources
import Mathlib.Data.List.Perm.Basic
import Mathlib.Data.List.Count

/-!
# Runtimes are closed once, and never under a call

Every runtime is in one place: cached, retired, in the batch of a release, closed, or left behind by a release
that raised. A release takes its batch only while no call is active, and what a call holds is cached or
retired, so nothing in a batch is in use. What an invalidation leaves behind is closed when it returns,
provided that no call had come in, no release of an earlier batch is still at work, and no closing of an
earlier batch raised.
-/

namespace OpenAgent.Models.Resources

open Lib List Bool

variable {Shape : Type}

/-! ### Counting runtimes -/

/-- How often `runtime` is cached. -/
def Ledger.cached (l : Ledger Shape) (runtime : Nat) : Nat :=
  l.sessions.count fun _ c => c.runtime == runtime

abbrev Flights := List (Kind × Release)

def batches (fl : Flights) : List Nat := fl.flatMap fun f => f.2.batch

def currents (fl : Flights) : List Nat := fl.map fun f => f.2.current

def Kind.isInvalidation : Kind → Bool
  | .invalidation _ => true
  | _ => false

/-- The runtimes that were the first `n` to be retired are in no batch taken later. -/
structure Ledger.Guarded (l : Ledger Shape) (fl : Flights) (n : Nat) : Prop where
  retired : ∀ r ∈ l.retired, r ∉ l.ever.take n
  batches : ∀ f ∈ fl, n < f.2.upTo → ∀ r ∈ f.2.batch, r ∉ l.ever.take n
  failures : ∀ f ∈ l.failures, n < f.2 → f.1 ∉ l.ever.take n

structure Ledger.Books (l : Ledger Shape) (fl : Flights) : Prop where
  place : ∀ r, l.cached r + l.retired.count r + (batches fl).count r + l.closed.count r +
    (l.failures.map Prod.fst).count r + l.lost.count r = if r < l.built then 1 else 0
  ever : ∀ r, l.ever.count r + l.cached r = if r < l.built then 1 else 0
  begun : ∀ r, l.begun.count r =
    (currents fl).count r + l.closed.count r + (l.failures.map Prod.fst).count r
  upTo : ∀ f ∈ fl, f.2.upTo ≤ l.ever.length
  failures : ∀ f ∈ l.failures, f.2 ≤ l.ever.length
  guarded : ∀ f ∈ fl, f.1.isInvalidation = true → l.Guarded fl f.2.upTo
  receipts : ∀ n ∈ l.receipts, n ≤ l.ever.length ∧ ∀ r ∈ l.ever.take n, r ∈ l.closed
  lost : l.lost = []

variable {l : Ledger Shape} {fl fl' rest : Flights}

theorem count_batches_cons (f : Kind × Release) (fl : Flights) (r : Nat) :
    (batches (f :: fl)).count r = f.2.batch.count r + (batches fl).count r := by
  rw [batches, flatMap_cons, count_append]
  rfl

theorem count_currents_cons (f : Kind × Release) (fl : Flights) (r : Nat) :
    (currents (f :: fl)).count r = [f.2.current].count r + (currents fl).count r := by
  rw [currents, map_cons, ← singleton_append, count_append]
  rfl

theorem Release.count_batch (release : Release) (r : Nat) :
    release.batch.count r = [release.current].count r + release.rest.count r := by
  rw [Release.batch, ← singleton_append, count_append]

theorem Ledger.Guarded.perm {n : Nat} (h : l.Guarded fl n) (hperm : fl.Perm fl') : l.Guarded fl' n :=
  ⟨h.retired, fun f hf => h.batches f (hperm.mem_iff.mpr hf), h.failures⟩

theorem Ledger.Books.perm (h : l.Books fl) (hperm : fl.Perm fl') : l.Books fl' where
  place r := by
    have hcount : (batches fl').count r = (batches fl).count r := ((hperm.flatMap_right _).count_eq r).symm
    rw [hcount]
    exact h.place r
  ever := h.ever
  begun r := by
    have hcount : (currents fl').count r = (currents fl).count r := ((hperm.map _).count_eq r).symm
    rw [hcount]
    exact h.begun r
  upTo f hf := h.upTo f (hperm.mem_iff.mpr hf)
  failures := h.failures
  guarded f hf hkind := (h.guarded f (hperm.mem_iff.mpr hf) hkind).perm hperm
  receipts := h.receipts
  lost := h.lost

/-! ### Retiring -/

/-- The runtimes in `rs` go from the cache to the retired ones. -/
theorem Ledger.Books.moved (h : l.Books fl) {sessions : Dict String (Cached Shape)} {rs : List Nat}
    (hmoved : ∀ r, ({ l with sessions := sessions } : Ledger Shape).cached r + rs.count r = l.cached r) :
    Ledger.Books { l with sessions := sessions, retired := l.retired ++ rs, ever := l.ever ++ rs } fl := by
  have htake : ∀ n ≤ l.ever.length, (l.ever ++ rs).take n = l.ever.take n :=
    fun n hn => take_append_of_le_length hn
  have hnew : ∀ r ∈ rs, ∀ n, r ∉ l.ever.take n := by
    intro r hr n hold
    have hcached := hmoved r
    have hcount := h.ever r
    have hin := List.count_pos_iff.mpr hr
    have hever := List.count_pos_iff.mpr (mem_of_mem_take hold)
    split at hcount <;> omega
  refine ⟨fun r => ?_, fun r => ?_, h.begun, fun f hf => ?_, fun f hf => ?_, fun f hf hkind => ?_,
    fun n hn => ?_, h.lost⟩
  · have hplace := h.place r
    have hcached := hmoved r
    simp only [count_append]
    simp only [Ledger.cached] at *
    omega
  · have hever := h.ever r
    have hcached := hmoved r
    simp only [count_append]
    simp only [Ledger.cached] at *
    omega
  · have := h.upTo f hf
    simp only [length_append]
    omega
  · have := h.failures f hf
    simp only [length_append]
    omega
  · have hguarded := h.guarded f hf hkind
    have hn := h.upTo f hf
    constructor <;> simp only [htake _ hn]
    · intro r hr
      rcases List.mem_append.mp hr with hold | hr
      · exact hguarded.retired r hold
      · exact hnew r hr _
    · exact hguarded.batches
    · exact hguarded.failures
  · obtain ⟨hle, hclosed⟩ := h.receipts n hn
    rw [htake n hle, length_append]
    exact ⟨by omega, hclosed⟩

variable {session : String}

theorem cached_pop {c : Cached Shape} (hget : l.sessions.get? session = some c) (r : Nat) :
    ({ l with sessions := l.sessions.pop session } : Ledger Shape).cached r + [c.runtime].count r
      = l.cached r := by
  have hcount := Dict.count_pop (fun _ (d : Cached Shape) => d.runtime == r) hget
  simp only [Ledger.cached, count_singleton]
  exact hcount

theorem Ledger.Books.replace (h : l.Books fl) (session : String) : (l.replace session).Books fl := by
  unfold Ledger.replace
  split
  · exact h
  · rename_i c hget
    exact h.moved (cached_pop hget)

theorem Ledger.Books.dropSessionState (h : l.Books fl) (session : String) :
    (l.dropSessionState session).Books fl := by
  unfold Ledger.dropSessionState
  split
  · exact h
  · exact h.replace session

theorem count_values (d : Dict String (Cached Shape)) (r : Nat) :
    (d.values.map Cached.runtime).count r = d.count fun _ c => c.runtime == r := by
  unfold Dict.values Dict.count
  rw [map_map, count_eq_countP, countP_map, countP_eq_length_filter]
  rfl

theorem Ledger.Books.invalidateSessionCache (h : l.Books fl) : l.invalidateSessionCache.Books fl := by
  refine h.moved fun r => ?_
  rw [count_values]
  exact Nat.zero_add _

theorem cached_build (hget : l.sessions.get? session = none) (shape : Shape) (r : Nat) :
    ({ l with sessions := l.sessions.set session ⟨l.built, shape⟩ } : Ledger Shape).cached r
      = l.cached r + if r = l.built then 1 else 0 := by
  have hcount := Dict.count_set_of_absent (⟨l.built, shape⟩ : Cached Shape)
    (fun _ (d : Cached Shape) => d.runtime == r) hget
  simp only [Ledger.cached]
  rw [hcount]
  by_cases hr : r = l.built
  · simp [hr]
  · simp [hr, Ne.symm hr]

theorem Ledger.Books.build (h : l.Books fl) (hget : l.sessions.get? session = none) (shape : Shape)
    (builds : Bool) : (l.build session shape builds).1.Books fl := by
  unfold Ledger.build
  split
  · refine ⟨fun r => ?_, fun r => ?_, h.begun, h.upTo, h.failures, fun f hf hkind => ?_, h.receipts, h.lost⟩
    · have hplace := h.place r
      have hcached := cached_build hget shape r
      simp only [Ledger.cached] at *
      split at hplace <;> split at hcached <;> split <;> omega
    · have hever := h.ever r
      have hcached := cached_build hget shape r
      simp only [Ledger.cached] at *
      split at hever <;> split at hcached <;> split <;> omega
    · obtain ⟨hretired, hbatches, hfailures⟩ := h.guarded f hf hkind
      exact ⟨hretired, hbatches, hfailures⟩
  · exact h

theorem replace_absent (l : Ledger Shape) (session : String) :
    (l.replace session).sessions.get? session = none := by
  unfold Ledger.replace
  split
  · assumption
  · exact Dict.get?_pop_self _ _

theorem Ledger.Books.ensureRuntime [DecidableEq Shape] (h : l.Books fl) (session : String) (shape : Shape)
    (builds : Bool) : (l.ensureRuntime session shape builds).1.Books fl := by
  unfold Ledger.ensureRuntime
  split
  · rename_i hget
    exact h.build hget shape builds
  · split
    · exact h
    · exact (h.replace session).build (replace_absent l session) shape builds

/-! ### Releasing -/

theorem eraseDups_of_nodup {xs : List Nat} (h : xs.Nodup) : xs.eraseDups = xs := by
  induction xs with
  | nil => rfl
  | cons x rest ih =>
    obtain ⟨hx, hrest⟩ := List.nodup_cons.mp h
    rw [eraseDups_cons]
    have hfilter : rest.filter (fun y => !y == x) = rest := by
      refine List.filter_eq_self.mpr fun y hy => ?_
      have hne : y ≠ x := fun heq => hx (heq ▸ hy)
      simpa using hne
    rw [hfilter, ih hrest]

theorem Ledger.Books.nodup_retired (h : l.Books fl) : l.retired.Nodup := by
  refine List.nodup_iff_count_le_one.mpr fun r => ?_
  have hplace := h.place r
  split at hplace <;> omega

theorem takeRetired_none (h : l.Books fl) (htake : l.takeRetired.2 = none) :
    l.retired = [] ∧ l.takeRetired.1 = l := by
  unfold Ledger.takeRetired at *
  rw [eraseDups_of_nodup h.nodup_retired] at *
  cases hretired : l.retired with
  | nil =>
    refine ⟨rfl, ?_⟩
    cases l
    subst hretired
    rfl
  | cons r rest =>
    simp [hretired] at htake

theorem takeRetired_some {release : Release} (h : l.Books fl) (htake : l.takeRetired.2 = some release) :
    l.retired = release.batch ∧ release.upTo = l.ever.length ∧
      l.takeRetired.1 = { l with retired := [], begun := l.begun ++ [release.current] } := by
  unfold Ledger.takeRetired at *
  rw [eraseDups_of_nodup h.nodup_retired] at *
  cases hretired : l.retired with
  | nil =>
    simp [hretired] at htake
  | cons r rest =>
    rw [hretired] at htake
    cases htake
    exact ⟨rfl, rfl, rfl⟩

theorem Ledger.Books.take {release : Release} (h : l.Books fl) (kind : Kind)
    (htake : l.takeRetired.2 = some release) : l.takeRetired.1.Books ((kind, release) :: fl) := by
  obtain ⟨hretired, hupTo, heq⟩ := takeRetired_some h htake
  rw [heq]
  refine ⟨fun r => ?_, h.ever, fun r => ?_, fun f hf => ?_, h.failures, fun f hf hkind => ?_, h.receipts, h.lost⟩
  · have hplace := h.place r
    rw [hretired] at hplace
    rw [count_batches_cons]
    simp only [count_nil, Ledger.cached] at *
    omega
  · have hbegun := h.begun r
    simp only [count_currents_cons, count_append]
    omega
  · rcases List.mem_cons.mp hf with rfl | hold
    · exact Nat.le_of_eq hupTo
    · exact h.upTo f hold
  · rcases List.mem_cons.mp hf with rfl | hold
    · refine ⟨(fun r hr => by cases hr), fun g hg hlater => ?_, fun g hg hlater => ?_⟩
      · rcases List.mem_cons.mp hg with rfl | hg
        · exact absurd hlater (Nat.lt_irrefl _)
        · have := h.upTo g hg
          simp only [hupTo] at hlater
          omega
      · have := h.failures g hg
        simp only [hupTo] at hlater
        omega
    · obtain ⟨hfirst, hbatches, hfailures⟩ := h.guarded f hold hkind
      refine ⟨(fun r hr => by cases hr), fun g hg hlater => ?_, hfailures⟩
      rcases List.mem_cons.mp hg with rfl | hg
      · intro r hr
        exact hfirst r (hretired ▸ hr)
      · exact hbatches g hg hlater

theorem Ledger.Books.next {kind : Kind} {r r' : Nat} {rs : List Nat} {n : Nat}
    (h : l.Books ((kind, ⟨r, r' :: rs, n⟩) :: rest)) :
    Ledger.Books { l with closed := l.closed ++ [r], begun := l.begun ++ [r'] }
      ((kind, ⟨r', rs, n⟩) :: rest) := by
  refine ⟨fun x => ?_, h.ever, fun x => ?_, fun f hf => ?_, h.failures, fun f hf hkind => ?_, fun m hm => ?_,
    h.lost⟩
  · have hplace := h.place x
    simp only [count_batches_cons, Release.count_batch, count_append] at *
    rw [← singleton_append (l := rs), count_append] at hplace
    simp only [Ledger.cached] at *
    omega
  · have hbegun := h.begun x
    simp only [count_currents_cons, count_append] at *
    omega
  · rcases List.mem_cons.mp hf with rfl | hold
    · exact h.upTo (kind, ⟨r, r' :: rs, n⟩) mem_cons_self
    · exact h.upTo f (.tail _ hold)
  · have hguard : l.Guarded ((kind, ⟨r, r' :: rs, n⟩) :: rest) f.2.upTo := by
      rcases List.mem_cons.mp hf with rfl | hold
      · exact h.guarded (kind, ⟨r, r' :: rs, n⟩) mem_cons_self hkind
      · exact h.guarded f (.tail _ hold) hkind
    refine ⟨hguard.retired, fun g hg hlater x hx => ?_, hguard.failures⟩
    rcases List.mem_cons.mp hg with rfl | hold
    · exact hguard.batches (kind, ⟨r, r' :: rs, n⟩) mem_cons_self hlater x (.tail _ hx)
    · exact hguard.batches g (.tail _ hold) hlater x hx
  · obtain ⟨hle, hclosed⟩ := h.receipts m hm
    exact ⟨hle, fun x hx => mem_append_left _ (hclosed x hx)⟩

theorem Ledger.Guarded.tail {f : Kind × Release} {n : Nat} (h : l.Guarded (f :: rest) n) :
    l.Guarded rest n :=
  ⟨h.retired, fun g hg => h.batches g (.tail f hg), h.failures⟩

theorem Ledger.Books.last {kind : Kind} {r n : Nat} (h : l.Books ((kind, ⟨r, [], n⟩) :: rest)) :
    Ledger.Books { l with closed := l.closed ++ [r] } rest := by
  refine ⟨fun x => ?_, h.ever, fun x => ?_, fun f hf => h.upTo f (.tail _ hf), h.failures, fun f hf hkind => ?_,
    fun m hm => ?_, h.lost⟩
  · have hplace := h.place x
    simp only [count_batches_cons, Release.count_batch, count_append, count_nil] at *
    simp only [Ledger.cached] at *
    omega
  · have hbegun := h.begun x
    simp only [count_currents_cons, count_append] at *
    omega
  · obtain ⟨hretired, hbatches, hfailures⟩ := (h.guarded f (.tail _ hf) hkind).tail
    exact ⟨hretired, hbatches, hfailures⟩
  · obtain ⟨hle, hclosed⟩ := h.receipts m hm
    exact ⟨hle, fun x hx => mem_append_left _ (hclosed x hx)⟩

theorem Ledger.Books.raised {kind : Kind} {r n : Nat} (h : l.Books ((kind, ⟨r, [], n⟩) :: rest)) :
    (l.raisedOne ⟨r, [], n⟩).Books rest := by
  refine ⟨fun x => ?_, h.ever, fun x => ?_, fun f hf => h.upTo f (.tail _ hf), fun f hf => ?_,
    fun f hf hkind => ?_, h.receipts, ?_⟩
  · have hplace := h.place x
    simp only [Ledger.raisedOne, count_batches_cons, Release.count_batch, count_append, count_nil,
      map_append, map_cons, map_nil, append_nil] at *
    simp only [Ledger.cached] at *
    omega
  · have hbegun := h.begun x
    simp only [Ledger.raisedOne, count_currents_cons, count_append, map_append, map_cons,
      map_nil] at *
    omega
  · rcases List.mem_append.mp hf with hold | hnew
    · exact h.failures f hold
    · rw [List.mem_singleton.mp hnew]
      exact h.upTo (kind, ⟨r, [], n⟩) mem_cons_self
  · have hguard := h.guarded f (.tail _ hf) hkind
    refine ⟨hguard.retired, hguard.tail.batches, fun g hg hlater => ?_⟩
    rcases List.mem_append.mp hg with hold | hnew
    · exact hguard.failures g hold hlater
    · cases List.mem_singleton.mp hnew
      exact hguard.batches (kind, ⟨r, [], n⟩) mem_cons_self hlater r mem_cons_self
  · simp only [Ledger.raisedOne, append_nil]
    exact h.lost

theorem Ledger.Books.receipt {n : Nat} (h : l.Books fl) (hn : n ≤ l.ever.length) (hguard : l.Guarded fl n)
    (hflights : ∀ f ∈ fl, n < f.2.upTo) (hfailures : ∀ f ∈ l.failures, n < f.2) :
    (l.receipt n).Books fl := by
  refine ⟨h.place, h.ever, h.begun, h.upTo, h.failures, fun f hf hkind => ?_, fun m hm => ?_, h.lost⟩
  · obtain ⟨hretired, hbatches, hfailed⟩ := h.guarded f hf hkind
    exact ⟨hretired, hbatches, hfailed⟩
  rcases List.mem_append.mp hm with hold | hnew
  · exact h.receipts m hold
  rw [List.mem_singleton.mp hnew]
  refine ⟨hn, fun r hr => ?_⟩
  change r ∈ l.ever.take n at hr
  change r ∈ l.closed
  have hplace := h.place r
  have hever := h.ever r
  have hin := List.count_pos_iff.mpr (mem_of_mem_take hr)
  have hretired : l.retired.count r = 0 := List.count_eq_zero.mpr fun hmem => hguard.retired r hmem hr
  have hbatches : (batches fl).count r = 0 := by
    refine List.count_eq_zero.mpr fun hmem => ?_
    obtain ⟨f, hf, hbatch⟩ := List.mem_flatMap.mp hmem
    exact hguard.batches f hf (hflights f hf) r hbatch hr
  have hfailed : (l.failures.map Prod.fst).count r = 0 := by
    refine List.count_eq_zero.mpr fun hmem => ?_
    obtain ⟨f, hf, rfl⟩ := List.mem_map.mp hmem
    exact hguard.failures f hf (hfailures f hf) hr
  have hlost : l.lost.count r = 0 := by
    rw [h.lost]
    rfl
  refine List.count_pos_iff.mp ?_
  omega

/-! ### Tasks -/

def Task.flight : Task → Option (Kind × Release)
  | ⟨kind, .releasing release⟩ => some (kind, release)
  | _ => none

def Task.held : Task → Option (List Nat)
  | ⟨_, .running held⟩ => some held
  | _ => none

namespace Provider

def flights (s : Provider Shape) : Flights := s.tasks.filterMap Task.flight

def helds (s : Provider Shape) : List (List Nat) := s.tasks.filterMap Task.held

def others (s : Provider Shape) (i : Nat) : Flights := (s.tasks.eraseIdx i).filterMap Task.flight

def otherHelds (s : Provider Shape) (i : Nat) : List (List Nat) := (s.tasks.eraseIdx i).filterMap Task.held

end Provider

variable {s : Provider Shape} {i n : Nat} {task task' : Task} {kind : Kind} {hs hs' : List (List Nat)}

theorem filterMap_at {β : Type} (g : Task → Option β) {tasks : List Task} (hi : tasks[i]? = some task) :
    (tasks.filterMap g).Perm ((g task).toList ++ (tasks.eraseIdx i).filterMap g) := by
  obtain ⟨hlt, rfl⟩ := List.getElem?_eq_some_iff.mp hi
  refine ((getElem_cons_eraseIdx_perm hlt).symm.filterMap g).trans ?_
  rw [filterMap_cons]
  cases g tasks[i] <;> exact .refl _

theorem filterMap_set {β : Type} (g : Task → Option β) {tasks : List Task} (hi : tasks[i]? = some task)
    (task' : Task) :
    ((tasks.set i task').filterMap g).Perm ((g task').toList ++ (tasks.eraseIdx i).filterMap g) := by
  obtain ⟨hlt, -⟩ := List.getElem?_eq_some_iff.mp hi
  refine ((set_perm_cons_eraseIdx hlt task').filterMap g).trans ?_
  rw [filterMap_cons]
  cases g task' <;> exact .refl _

@[simp] theorem flight_wakeReady (t : Task) : t.wakeReady.flight = t.flight := by
  obtain ⟨kind, stage⟩ := t
  cases stage <;> rfl

@[simp] theorem held_wakeReady (t : Task) : t.wakeReady.held = t.held := by
  obtain ⟨kind, stage⟩ := t
  cases stage <;> rfl

@[simp] theorem flight_wakeIdle (t : Task) : t.wakeIdle.flight = t.flight := by
  obtain ⟨kind, stage⟩ := t
  cases stage <;> rfl

@[simp] theorem held_wakeIdle (t : Task) : t.wakeIdle.held = t.held := by
  obtain ⟨kind, stage⟩ := t
  cases stage <;> rfl

@[simp] theorem flights_setReady (s : Provider Shape) : s.setReady.flights = s.flights := by
  simp only [Provider.flights, Provider.setReady, filterMap_map]
  exact filterMap_congr fun t _ => flight_wakeReady t

@[simp] theorem helds_setReady (s : Provider Shape) : s.setReady.helds = s.helds := by
  simp only [Provider.helds, Provider.setReady, filterMap_map]
  exact filterMap_congr fun t _ => held_wakeReady t

@[simp] theorem flights_setIdle (s : Provider Shape) : s.setIdle.flights = s.flights := by
  simp only [Provider.flights, Provider.setIdle, filterMap_map]
  exact filterMap_congr fun t _ => flight_wakeIdle t

@[simp] theorem helds_setIdle (s : Provider Shape) : s.setIdle.helds = s.helds := by
  simp only [Provider.helds, Provider.setIdle, filterMap_map]
  exact filterMap_congr fun t _ => held_wakeIdle t

/-! ### The invariant -/

def Provider.Downs (s : Provider Shape) : Prop :=
  ∀ t ∈ s.tasks, t.kind = .shutdown → s.closing = true ∧ (t.stage = .draining true → s.activeCalls = 0)

/-- The books for the releases `fl`, and the calls that hold `hs`. -/
structure Provider.Core (s : Provider Shape) (fl : Flights) (hs : List (List Nat)) : Prop where
  books : s.toLedger.Books fl
  active : s.activeCalls = hs.length
  idle : s.idle = true → s.activeCalls = 0
  held : ∀ held ∈ hs, ∀ r ∈ held, 0 < s.cached r + s.retired.count r
  downs : s.Downs
  shut : s.shut = true →
    s.closing = true ∧ s.activeCalls = 0 ∧ s.sessions.entries = [] ∧ s.retired = []

def Provider.Inv (s : Provider Shape) : Prop := s.Core s.flights s.helds

theorem Provider.Core.perm (h : s.Core fl hs) (hfl : fl.Perm fl') (hhs : hs.Perm hs') : s.Core fl' hs' where
  books := h.books.perm hfl
  active := h.active.trans hhs.length_eq
  idle := h.idle
  held held hheld := h.held held (hhs.mem_iff.mpr hheld)
  downs := h.downs
  shut := h.shut

theorem Provider.Inv.core (h : s.Inv) (hi : s.tasks[i]? = some task) :
    s.Core (task.flight.toList ++ s.others i) (task.held.toList ++ s.otherHelds i) :=
  Provider.Core.perm h (filterMap_at Task.flight hi) (filterMap_at Task.held hi)

theorem downs_set (h : s.Downs) (hi : s.tasks[i]? = some task) (hkind : task'.kind = task.kind)
    (hstage : task'.stage = .draining true → task.stage = .draining true) : (s.setTask i task').Downs := by
  intro t ht hshutdown
  rcases mem_or_eq_of_mem_set ht with hold | rfl
  · exact h t hold hshutdown
  · obtain ⟨hclosing, hactive⟩ := h task (mem_of_getElem? hi) (hkind ▸ hshutdown)
    exact ⟨hclosing, fun hdraining => hactive (hstage hdraining)⟩

theorem Provider.Core.setTask (task' : Task) (h : s.Core (task'.flight.toList ++ s.others i) (task'.held.toList ++ s.otherHelds i))
    (hi : s.tasks[i]? = some task) (hkind : task'.kind = task.kind)
    (hstage : task'.stage = .draining true → task.stage = .draining true) : (s.setTask i task').Inv := by
  have hset : (s.setTask i task').Core (task'.flight.toList ++ s.others i)
      (task'.held.toList ++ s.otherHelds i) :=
    ⟨h.books, h.active, h.idle, h.held, downs_set h.downs hi hkind hstage, h.shut⟩
  exact hset.perm (filterMap_set Task.flight hi task').symm (filterMap_set Task.held hi task').symm

theorem Provider.Inv.setReady (h : s.Inv) : s.setReady.Inv := by
  unfold Provider.Inv
  rw [flights_setReady, helds_setReady]
  refine ⟨h.books, h.active, h.idle, h.held, fun t ht hshutdown => ?_, h.shut⟩
  obtain ⟨⟨kind, stage⟩, hold, rfl⟩ := List.mem_map.mp ht
  have hdown := h.downs _ hold (by cases stage <;> exact hshutdown)
  cases stage with
  | waiting woken => exact ⟨hdown.1, nofun⟩
  | running | locking | draining | releasing | ended => exact hdown

theorem Provider.Inv.setIdle (h : s.Inv) (hactive : s.activeCalls = 0) : s.setIdle.Inv := by
  unfold Provider.Inv
  rw [flights_setIdle, helds_setIdle]
  refine ⟨h.books, h.active, fun _ => hactive, h.held, fun t ht hshutdown => ?_, h.shut⟩
  obtain ⟨⟨kind, stage⟩, hold, rfl⟩ := List.mem_map.mp ht
  refine ⟨?_, fun _ => hactive⟩
  cases stage <;> exact (h.downs _ hold hshutdown).1

/-! ### Releases of a task -/

def Provider.Clears (s : Provider Shape) (i n : Nat) : Prop :=
  n ≤ s.ever.length ∧ s.Guarded (s.others i) n ∧ (∀ f ∈ s.others i, n < f.2.upTo) ∧
    ∀ f ∈ s.failures, n < f.2

theorem Provider.Core.conclude {returns : Bool} (h : s.Core (s.others i) (s.otherHelds i))
    (hi : s.tasks[i]? = some task) (hkind : task.kind = kind)
    (hclears : kind.isInvalidation = true → returns = true → s.Clears i n) :
    (s.conclude i kind n returns).Inv := by
  have hended : (s.setTask i ⟨kind, .ended⟩).Inv :=
    Provider.Core.setTask ⟨kind, .ended⟩ h hi hkind.symm nofun
  cases kind with
  | call =>
    simp only [Provider.conclude]
    split
    · rename_i hactive
      exact hended.setIdle hactive
    · exact hended
  | close => exact hended
  | shutdown => exact hended
  | invalidation session =>
    simp only [Provider.conclude]
    refine Provider.Inv.setReady ?_
    refine Provider.Core.setTask ⟨.invalidation session, .ended⟩ ?_ hi hkind.symm
      nofun
    refine ⟨?_, h.active, h.idle, ?_, h.downs, ?_⟩
    · show Ledger.Books (if returns then s.receipt n else s.toLedger) (s.others i)
      split
      · rename_i hreturns
        obtain ⟨hn, hguard, hflights, hfailures⟩ := hclears rfl hreturns
        exact h.books.receipt hn hguard hflights hfailures
      · exact h.books
    · cases returns <;> exact h.held
    · cases returns <;> exact h.shut

/-- An invalidation finds something to close only where no call is active, and where it finds nothing there
is no other release and no failure. -/
def Provider.Allowed (s : Provider Shape) (i : Nat) : Prop :=
  if s.retired = [] then s.others i = [] ∧ s.failures = [] else s.activeCalls = 0

theorem Provider.Core.releaseRetired (h : s.Core (s.others i) (s.otherHelds i)) (hi : s.tasks[i]? = some task)
    (hkind : task.kind = kind) (hallowed : kind.isInvalidation = true → s.Allowed i) :
    (s.releaseRetired i kind).Inv := by
  have hclears (hretired : s.retired = []) (hinvalidation : kind.isInvalidation = true) :
      s.Clears i s.ever.length := by
    have hnone := hallowed hinvalidation
    unfold Provider.Allowed at hnone
    rw [if_pos hretired] at hnone
    refine ⟨Nat.le_refl _, ⟨?_, ?_, ?_⟩, ?_, ?_⟩
    · simp [hretired]
    · simp [hnone.1]
    · simp [hnone.2]
    · simp [hnone.1]
    · simp [hnone.2]
  unfold Provider.releaseRetired
  split
  · rename_i hactive
    refine h.conclude hi hkind fun hinvalidation _ => ?_
    by_cases hretired : s.retired = []
    · exact hclears hretired hinvalidation
    · have := hallowed hinvalidation
      unfold Provider.Allowed at this
      rw [if_neg hretired] at this
      exact absurd this hactive
  · rename_i hactive
    cases htake : s.takeRetired.2 with
    | none =>
      obtain ⟨hretired, hsame⟩ := takeRetired_none h.books htake
      rw [hsame]
      exact h.conclude hi hkind fun hinvalidation _ => hclears hretired hinvalidation
    | some release =>
      obtain ⟨-, -, hledger⟩ := takeRetired_some h.books htake
      have hnone : s.otherHelds i = [] := by
        refine List.length_eq_zero_iff.mp ?_
        have := h.active
        omega
      refine Provider.Core.setTask ⟨kind, .releasing release⟩ ?_ hi hkind.symm nofun
      refine ⟨h.books.take kind htake, h.active, h.idle, ?_, h.downs, fun hshut => ?_⟩
      · show ∀ held ∈ s.otherHelds i, _
        rw [hnone]
        exact fun held hheld => by cases hheld
      · obtain ⟨hclosing, hzero, hsessions, -⟩ := h.shut hshut
        refine ⟨hclosing, hzero, ?_, ?_⟩
        · show s.takeRetired.1.sessions.entries = []
          rw [hledger]
          exact hsessions
        · show s.takeRetired.1.retired = []
          rw [hledger]

/-! ### Steps -/

theorem Provider.Inv.addTask (h : s.Inv) (task : Task) (hflight : task.flight = none) (hheld : task.held = none)
    (hdown : task.kind = .shutdown → s.closing = true ∧ task.stage ≠ .draining true) :
    (s.addTask task).Inv := by
  have hflights : (s.addTask task).flights = s.flights := by
    simp [Provider.flights, Provider.addTask, hflight]
  have hhelds : (s.addTask task).helds = s.helds := by
    simp [Provider.helds, Provider.addTask, hheld]
  unfold Provider.Inv
  rw [hflights, hhelds]
  refine ⟨h.books, h.active, h.idle, h.held, fun t ht hshutdown => ?_, h.shut⟩
  rcases List.mem_append.mp ht with hold | hnew
  · exact h.downs t hold hshutdown
  · cases List.mem_singleton.mp hnew
    obtain ⟨hclosing, hstage⟩ := hdown hshutdown
    exact ⟨hclosing, fun heq => absurd heq hstage⟩

theorem getElem?_addTask (s : Provider Shape) (task : Task) :
    (s.addTask task).tasks[s.tasks.length]? = some task := by
  simp [Provider.addTask]

theorem Provider.Inv.enterScope (h : s.Inv) {woken : Bool} (hi : s.tasks[i]? = some ⟨.call, .waiting woken⟩) :
    (s.enterScope i).Inv := by
  have hcore : s.Core (s.others i) (s.otherHelds i) := h.core hi
  unfold Provider.enterScope
  split
  · exact Provider.Core.setTask ⟨.call, .ended⟩ hcore hi rfl nofun
  · rename_i hopen
    have hnone : ∀ t ∈ s.tasks, t.kind ≠ .shutdown := fun t ht hshutdown =>
      hopen (h.downs t ht hshutdown).1
    refine Provider.Core.perm ?_ (filterMap_set Task.flight hi ⟨.call, .running []⟩).symm
      (filterMap_set Task.held hi ⟨.call, .running []⟩).symm
    refine ⟨hcore.books, ?_, (nofun), fun held hheld => ?_, fun t ht hshutdown => ?_,
      fun hshut => absurd (h.shut hshut).1 hopen⟩
    · show s.activeCalls + 1 = (s.otherHelds i).length + 1
      rw [hcore.active]
    · rcases List.mem_cons.mp hheld with rfl | hold
      · exact fun r hr => by cases hr
      · exact hcore.held held hold
    · rcases mem_or_eq_of_mem_set ht with hold | rfl
      · exact absurd hshutdown (hnone t hold)
      · cases hshutdown

theorem Provider.Inv.leaveScope (h : s.Inv) {held : List Nat} (hi : s.tasks[i]? = some ⟨.call, .running held⟩) :
    (s.leaveScope i).Inv := by
  have hcore := h.core hi
  have hleft : Provider.Core { s with activeCalls := s.activeCalls - 1 } (s.others i) (s.otherHelds i) := by
    have hactive : s.activeCalls = (s.otherHelds i).length + 1 := by
      have := hcore.active
      simpa only [Task.held, Option.toList_some, singleton_append, length_cons] using this
    refine ⟨hcore.books, ?_, fun hidle => ?_, fun g hg => hcore.held g (.tail _ hg), fun t ht hshutdown => ?_,
      fun hshut => ?_⟩
    · show s.activeCalls - 1 = _
      omega
    · have := h.idle hidle
      omega
    · obtain ⟨hclosing, hzero⟩ := h.downs t ht hshutdown
      refine ⟨hclosing, fun hdraining => ?_⟩
      have := hzero hdraining
      omega
    · have := (h.shut hshut).2.1
      omega
  unfold Provider.leaveScope
  dsimp only
  split
  · exact Provider.Core.releaseRetired hleft hi rfl nofun
  · exact Provider.Core.setTask ⟨.call, .ended⟩ hleft hi rfl nofun

variable {l : Ledger Shape}

theorem Provider.Core.ledger (h : s.Core fl hs) (hbooks : l.Books fl)
    (hheld : ∀ r, s.cached r + s.retired.count r ≤ l.cached r + l.retired.count r)
    (hshut : s.sessions.entries = [] → s.retired = [] → s.activeCalls = 0 →
      l.sessions.entries = [] ∧ l.retired = []) : Provider.Core { s with toLedger := l } fl hs where
  books := hbooks
  active := h.active
  idle := h.idle
  held held hin r hr := Nat.lt_of_lt_of_le (h.held held hin r hr) (hheld r)
  downs := h.downs
  shut hs := by
    obtain ⟨hclosing, hactive, hsessions, hretired⟩ := h.shut hs
    exact ⟨hclosing, hactive, hshut hsessions hretired hactive⟩

theorem replace_keeps (l : Ledger Shape) (session : String) (r : Nat) :
    l.cached r + l.retired.count r ≤ (l.replace session).cached r + (l.replace session).retired.count r := by
  unfold Ledger.replace
  split
  · exact Nat.le_refl _
  · rename_i c hget
    have hpop := cached_pop hget r
    simp only [Ledger.retire, count_append, Ledger.cached] at *
    omega

theorem replace_empty (h : l.sessions.entries = []) (session : String) :
    l.replace session = l := by
  have hnone : l.sessions.get? session = none := by
    unfold Dict.get?
    rw [h]
    rfl
  unfold Ledger.replace
  rw [hnone]

theorem Provider.Core.dropSessionState (h : s.Core fl hs) (session : String) :
    Provider.Core { s with toLedger := s.dropSessionState session } fl hs := by
  refine h.ledger (h.books.dropSessionState session) (fun r => ?_) fun hsessions hretired _ => ?_
  · unfold Ledger.dropSessionState
    split
    · exact Nat.le_refl _
    · exact replace_keeps _ session r
  · unfold Ledger.dropSessionState
    split
    · exact ⟨hsessions, hretired⟩
    · rw [replace_empty hsessions]
      exact ⟨hsessions, hretired⟩

theorem build_keeps (hget : l.sessions.get? session = none) (shape : Shape)
    (builds : Bool) (r : Nat) : l.cached r + l.retired.count r ≤
      (l.build session shape builds).1.cached r + (l.build session shape builds).1.retired.count r := by
  unfold Ledger.build
  split
  · have hbuilt := cached_build hget shape r
    simp only [Ledger.cached] at *
    omega
  · exact Nat.le_refl _

theorem build_cached (hget : l.sessions.get? session = none) (shape : Shape)
    (builds : Bool) :
    ∀ r ∈ (l.build session shape builds).2.toList, 0 < (l.build session shape builds).1.cached r := by
  unfold Ledger.build
  split
  · intro r hr
    cases List.mem_singleton.mp hr
    have hbuilt := cached_build hget shape l.built
    rw [if_pos rfl] at hbuilt
    simp only [Ledger.cached] at *
    omega
  · exact fun r hr => by cases hr

theorem cached_of_get {c : Cached Shape} (hget : l.sessions.get? session = some c)
    : 0 < l.cached c.runtime := by
  have hpop := cached_pop hget c.runtime
  rw [count_singleton_self] at hpop
  omega

theorem Provider.Core.invalidateSessionCache (h : s.Core fl hs) :
    Provider.Core { s with toLedger := s.invalidateSessionCache } fl hs := by
  refine h.ledger h.books.invalidateSessionCache (fun r => ?_) fun hsessions hretired _ => ⟨rfl, ?_⟩
  · simp only [Ledger.invalidateSessionCache, count_append, count_values, Ledger.cached]
    omega
  · simp [Ledger.invalidateSessionCache, Dict.values, hsessions, hretired]

theorem Provider.Core.ensureRuntime [DecidableEq Shape] {held : List Nat} {shape : Shape} {builds : Bool}
    (h : s.Core fl (held :: hs)) :
    Provider.Core { s with toLedger := (s.ensureRuntime session shape builds).1 } fl
      ((held ++ (s.ensureRuntime session shape builds).2.toList) :: hs) := by
  have hkeeps (r : Nat) : s.cached r + s.retired.count r ≤
      (s.ensureRuntime session shape builds).1.cached r +
        (s.ensureRuntime session shape builds).1.retired.count r := by
    unfold Ledger.ensureRuntime
    split
    · rename_i hget
      exact build_keeps hget shape builds r
    · split
      · exact Nat.le_refl _
      · exact Nat.le_trans (replace_keeps _ session r) (build_keeps (replace_absent _ session) shape builds r)
  have hnew : ∀ r ∈ (s.ensureRuntime session shape builds).2.toList,
      0 < (s.ensureRuntime session shape builds).1.cached r := by
    unfold Ledger.ensureRuntime
    split
    · rename_i hget
      exact build_cached hget shape builds
    · rename_i c hget
      split
      · intro r hr
        cases List.mem_singleton.mp hr
        exact cached_of_get hget
      · exact build_cached (replace_absent _ session) shape builds
  have hactive := h.active
  rw [length_cons] at hactive
  have hledger := h.ledger (h.books.ensureRuntime session shape builds) hkeeps fun _ _ hzero => by omega
  refine ⟨hledger.books, ?_, hledger.idle, fun g hg r hr => ?_, hledger.downs, hledger.shut⟩
  · rw [length_cons]
    exact hactive
  · rcases List.mem_cons.mp hg with rfl | hold
    · rcases List.mem_append.mp hr with hold | hr
      · exact hledger.held held mem_cons_self r hold
      · exact Nat.lt_of_lt_of_le (hnew r hr) (Nat.le_add_right _ _)
    · exact hledger.held g (.tail _ hold) r hr

theorem takeRetired_left (l : Ledger Shape) :
    l.takeRetired.1.sessions = l.sessions ∧ l.takeRetired.1.retired = [] := by
  unfold Ledger.takeRetired
  split <;> exact ⟨rfl, rfl⟩

theorem releaseRetired_shutdown (hactive : s.activeCalls = 0) :
    (s.releaseRetired i .shutdown).closing = s.closing ∧ (s.releaseRetired i .shutdown).activeCalls = 0 ∧
      (s.releaseRetired i .shutdown).sessions = s.sessions ∧
      (s.releaseRetired i .shutdown).retired = [] := by
  obtain ⟨hsessions, hretired⟩ := takeRetired_left s.toLedger
  unfold Provider.releaseRetired
  rw [if_neg (not_not.mpr hactive)]
  cases s.takeRetired.2 <;> exact ⟨rfl, hactive, hsessions, hretired⟩

theorem Provider.Inv.drained (h : s.Inv) (hi : s.tasks[i]? = some task) (hkind : task.kind = kind)
    (hflight : task.flight = none) (hheld : task.held = none)
    (hallowed : ∀ session, kind = .invalidation session →
      Provider.Allowed { s with toLedger := s.dropSessionState session } i)
    (hwoken : kind = .shutdown → s.closing = true ∧ s.activeCalls = 0) {s' : Provider Shape}
    (hstep : s.drained i kind = some s') : s'.Inv := by
  have hcore := h.core hi
  rw [hflight, hheld] at hcore
  cases kind with
  | call | close => cases hstep
  | invalidation session =>
    cases hstep
    exact Provider.Core.releaseRetired (hcore.dropSessionState session) hi hkind
      fun _ => hallowed session rfl
  | shutdown =>
    cases hstep
    obtain ⟨hclosing, hactive⟩ := hwoken rfl
    have hreleased := Provider.Core.releaseRetired hcore.invalidateSessionCache hi hkind nofun
    obtain ⟨hclosing', hactive', hsessions, hretired⟩ :=
      releaseRetired_shutdown (s := { s with toLedger := s.invalidateSessionCache }) (i := i) hactive
    refine ⟨hreleased.books, hreleased.active, hreleased.idle, hreleased.held, hreleased.downs, fun _ => ?_⟩
    exact ⟨hclosing'.trans hclosing, hactive', congrArg Dict.entries hsessions, hretired⟩

theorem Provider.Inv.drain (h : s.Inv) (hi : s.tasks[i]? = some task) (hkind : task.kind = kind)
    (hflight : task.flight = none) (hheld : task.held = none)
    (hallowed : ∀ session, kind = .invalidation session → s.idle = true →
      Provider.Allowed { s with toLedger := s.dropSessionState session } i)
    (hclosing : kind = .shutdown → s.closing = true) {s' : Provider Shape}
    (hstep : s.drain i kind = some s') : s'.Inv := by
  unfold Provider.drain at hstep
  split at hstep
  · rename_i hidle
    exact h.drained hi hkind hflight hheld (fun session heq => hallowed session heq hidle)
      (fun heq => ⟨hclosing heq, h.idle hidle⟩) hstep
  · cases hstep
    have hcore := h.core hi
    rw [hflight, hheld] at hcore
    exact Provider.Core.setTask ⟨kind, .draining false⟩ hcore hi hkind.symm nofun

/-! ### Runs -/

def Provider.othersLater (s : Provider Shape) (i n : Nat) : Bool :=
  (s.others i).all (fun f => decide (n < f.2.upTo)) && s.failures.all fun f => decide (n < f.2)

/-- An invalidation goes on: to close something, where no call has come in, or else to return at once, where no
release is at work and no closing has raised. -/
def Provider.undisturbed (s : Provider Shape) (i : Nat) (session : String) : Bool :=
  if (s.dropSessionState session).retired = [] then (s.others i).isEmpty && s.failures.isEmpty
  else s.activeCalls = 0

def Provider.orderly (s : Provider Shape) : Event Shape → Bool
  | .raised i =>
    match s.tasks[i]? with
    | some ⟨_, .releasing release⟩ => release.rest.isEmpty
    | _ => true
  | .closed i =>
    match s.tasks[i]? with
    | some ⟨.invalidation _, .releasing ⟨_, [], n⟩⟩ => s.othersLater i n
    | _ => true
  | .lock i =>
    match s.tasks[i]? with
    | some ⟨.invalidation session, _⟩ => !s.idle || s.undisturbed i session
    | _ => true
  | .proceed i =>
    match s.tasks[i]? with
    | some ⟨.invalidation session, _⟩ => s.undisturbed i session
    | _ => true
  | _ => true

theorem allowed_of_undisturbed (h : s.undisturbed i session = true) :
    Provider.Allowed { s with toLedger := s.dropSessionState session } i := by
  have hfailures : (s.dropSessionState session).failures = s.failures := by
    unfold Ledger.dropSessionState Ledger.replace
    split
    · rfl
    · split <;> rfl
  unfold Provider.undisturbed at h
  unfold Provider.Allowed
  split at h
  · rename_i hretired
    rw [if_pos hretired]
    rw [and_eq_true, List.isEmpty_iff, List.isEmpty_iff] at h
    exact ⟨h.1, hfailures.trans h.2⟩
  · rename_i hretired
    rw [if_neg hretired]
    exact of_decide_eq_true h

variable {kind' : Kind} {release : Release} {returned : List Nat}

theorem Provider.Inv.closed (h : s.Inv) (hi : s.tasks[i]? = some ⟨kind, .releasing release⟩)
    (hlater : ∀ session, kind = .invalidation session → release.rest = [] → s.othersLater i release.upTo = true) :
    Provider.Inv (({ s with toLedger := (s.closedOne release).1 } : Provider Shape).goOn i kind release.upTo
      (s.closedOne release).2) := by
  have hcore : s.Core ((kind, release) :: s.others i) (s.otherHelds i) := h.core hi
  obtain ⟨r, rest, n⟩ := release
  cases rest with
  | nil =>
    have hbooks := hcore.books.last
    have hclosed : Provider.Core { s with closed := s.closed ++ [r] } (s.others i) (s.otherHelds i) :=
      ⟨hbooks, hcore.active, hcore.idle, hcore.held, hcore.downs, hcore.shut⟩
    refine Provider.Core.conclude hclosed hi rfl fun hinvalidation _ => ?_
    cases kind with
    | call | close | shutdown => cases hinvalidation
    | invalidation session =>
      have hothers := hlater session rfl rfl
      simp only [Provider.othersLater, and_eq_true, all_eq_true, decide_eq_true_eq] at hothers
      have hguard := (hcore.books.guarded _ mem_cons_self rfl).tail
      exact ⟨hcore.books.upTo _ mem_cons_self, ⟨hguard.retired, hguard.batches, hguard.failures⟩,
        hothers.1, hothers.2⟩
  | cons r' rest =>
    refine Provider.Core.setTask ⟨kind, .releasing ⟨r', rest, n⟩⟩ ?_ hi rfl nofun
    exact ⟨hcore.books.next, hcore.active, hcore.idle, hcore.held, hcore.downs, hcore.shut⟩

theorem Provider.Inv.raised (h : s.Inv) (hi : s.tasks[i]? = some ⟨kind, .releasing release⟩)
    (hlast : release.rest = []) :
    Provider.Inv (({ s with toLedger := s.raisedOne release } : Provider Shape).conclude i kind release.upTo
      false) := by
  have hcore : s.Core ((kind, release) :: s.others i) (s.otherHelds i) := h.core hi
  obtain ⟨r, rest, n⟩ := release
  obtain rfl : rest = [] := hlast
  have hraised : Provider.Core { s with toLedger := s.raisedOne ⟨r, [], n⟩ } (s.others i) (s.otherHelds i) :=
    ⟨hcore.books.raised, hcore.active, hcore.idle, hcore.held, hcore.downs, hcore.shut⟩
  exact Provider.Core.conclude hraised hi rfl nofun

theorem Provider.Inv.abandon (h : s.Inv) (hi : s.tasks[i]? = some task) {s' : Provider Shape}
    (hstep : s.abandon i task = some s') : s'.Inv := by
  have hcore := h.core hi
  unfold Provider.abandon at hstep
  split at hstep
  · cases hstep
    refine Provider.Inv.setReady ?_
    exact Provider.Core.setTask ⟨.invalidation _, .ended⟩ (s := { s with invalidating := false })
      ⟨hcore.books, hcore.active, hcore.idle, hcore.held, hcore.downs, hcore.shut⟩ hi rfl nofun
  all_goals first
    | cases hstep; done
    | cases hstep
      exact Provider.Core.setTask ⟨_, .ended⟩ hcore hi rfl nofun

variable [DecidableEq Shape]

theorem inv_step {e : Event Shape} {s' : Provider Shape} (h : s.Inv) (horderly : s.orderly e = true)
    (hstep : s.step e = some s') : s'.Inv := by
  cases e with
  | call =>
    cases hstep
    split
    · exact Provider.Inv.enterScope (h.addTask ⟨.call, .waiting true⟩ rfl rfl nofun)
        (getElem?_addTask s _)
    · exact h.addTask _ rfl rfl nofun
  | enter i =>
    simp only [Provider.step] at hstep
    split at hstep
    · rename_i hi
      cases hstep
      exact h.enterScope hi
    · cases hstep
  | obtain i session shape builds =>
    simp only [Provider.step] at hstep
    split at hstep
    · rename_i held hi
      cases hstep
      exact Provider.Core.setTask ⟨.call, .running _⟩ (Provider.Core.ensureRuntime (h.core hi)) hi rfl
        nofun
    · cases hstep
  | leave i =>
    simp only [Provider.step] at hstep
    split at hstep
    · rename_i held hi
      cases hstep
      exact h.leaveScope hi
    · cases hstep
  | closed i =>
    simp only [Provider.step] at hstep
    split at hstep
    · rename_i kind release hi
      cases hstep
      refine h.closed hi fun session hkind hrest => ?_
      obtain ⟨r, rest, n⟩ := release
      subst hkind
      obtain rfl : rest = [] := hrest
      simp only [Provider.orderly, hi] at horderly
      exact horderly
    · cases hstep
  | raised i =>
    simp only [Provider.step] at hstep
    split at hstep
    · rename_i kind release hi
      cases hstep
      simp only [Provider.orderly, hi] at horderly
      exact h.raised hi (List.isEmpty_iff.mp horderly)
    · cases hstep
  | closeSession session =>
    cases hstep
    have hdropped : Provider.Inv { s with toLedger := s.dropSessionState session } :=
      Provider.Core.dropSessionState h session
    have hadded := hdropped.addTask ⟨.close, .ended⟩ rfl rfl nofun
    have hat := getElem?_addTask { s with toLedger := s.dropSessionState session } ⟨.close, .ended⟩
    exact Provider.Core.releaseRetired (hadded.core hat) hat rfl nofun
  | rebuild =>
    cases hstep
    exact Provider.Core.invalidateSessionCache h
  | invalidate session =>
    simp only [Provider.step] at hstep
    split at hstep
    · cases hstep
    · cases hstep
      exact h.addTask _ rfl rfl nofun
  | lock i =>
    simp only [Provider.step] at hstep
    split at hstep
    · rename_i session hi
      split at hstep
      · cases hstep
      · simp only [Provider.orderly, hi, or_eq_true, not_eq_true'] at horderly
        have hlocked : Provider.Inv { s with invalidating := true, contextReady := false } :=
          ⟨h.books, h.active, h.idle, h.held, h.downs, h.shut⟩
        refine hlocked.drain hi rfl rfl rfl (fun session' heq hidle => ?_) (nofun) hstep
        cases heq
        rcases horderly with hbusy | hundisturbed
        · exact absurd (hidle.symm.trans hbusy) (by decide)
        · exact allowed_of_undisturbed (s := { s with invalidating := true, contextReady := false }) hundisturbed
    · cases hstep
  | proceed i =>
    simp only [Provider.step] at hstep
    split at hstep
    · rename_i kind hi
      refine h.drained hi rfl rfl rfl (fun session heq => ?_) (fun heq => ?_) hstep
      · subst heq
        simp only [Provider.orderly, hi] at horderly
        exact allowed_of_undisturbed horderly
      · obtain ⟨hclosing, hactive⟩ := h.downs _ (mem_of_getElem? hi) heq
        exact ⟨hclosing, hactive rfl⟩
    · cases hstep
  | shutdown =>
    have hclosing : Provider.Inv { s with closing := true } :=
      ⟨h.books, h.active, h.idle, h.held, fun t ht hkind => ⟨rfl, (h.downs t ht hkind).2⟩,
        fun hshut => ⟨rfl, (h.shut hshut).2⟩⟩
    have hadded := hclosing.addTask ⟨.shutdown, .draining false⟩ rfl rfl
      fun _ => ⟨rfl, nofun⟩
    exact hadded.drain (getElem?_addTask { s with closing := true } _) rfl rfl rfl
      (fun session heq => by cases heq) (fun _ => rfl) hstep
  | abandon i =>
    simp only [Provider.step] at hstep
    split at hstep
    · rename_i task hi
      exact h.abandon hi hstep
    · cases hstep

omit [DecidableEq Shape] in
theorem inv_initial : (({} : Provider Shape)).Inv where
  books := by
    refine ⟨fun r => ?_, fun r => ?_, fun r => rfl, ?_, ?_, ?_, ?_, rfl⟩
    · rfl
    · rfl
    all_goals exact fun f hf => by cases hf
  active := rfl
  idle _ := rfl
  held := fun held hheld => by cases hheld
  downs := fun t ht => by cases ht
  shut := nofun

/-! ### What holds in every state -/

/-- No closing of a runtime has begun that a call in its scope obtained; no closing begins twice; a runtime that
was retired is retired still, in the batch of a release, or its closing has begun, and a closing that has begun
is under way, over or has raised; what had been retired when an invalidation dropped its session, the runtime
of that session with it, is closed once the invalidation has returned, and no call holds it; and nothing is
left once a shutdown has come to its release. -/
structure Provider.Safe (s : Provider Shape) : Prop where
  inUse : ∀ held ∈ s.helds, ∀ r ∈ held, r ∉ s.begun
  once : s.begun.Nodup
  accounted : ∀ r ∈ s.ever, r ∈ s.retired ∨ (∃ f ∈ s.flights, r ∈ f.2.rest) ∨ r ∈ s.begun
  attempted : ∀ r ∈ s.begun, (∃ f ∈ s.flights, f.2.current = r) ∨ r ∈ s.closed ∨ ∃ f ∈ s.failures, f.1 = r
  receipts : ∀ n ∈ s.receipts, ∀ r ∈ s.ever.take n, r ∈ s.closed ∧ ∀ held ∈ s.helds, r ∉ held
  shut : s.shut = true → s.sessions.entries = [] ∧ s.retired = []

theorem batches_eq (fl : Flights) (r : Nat) :
    (batches fl).count r = (currents fl).count r + (fl.flatMap fun f => f.2.rest).count r := by
  induction fl with
  | nil => rfl
  | cons f rest ih =>
    rw [count_batches_cons, count_currents_cons, Release.count_batch, flatMap_cons, count_append, ih]
    omega

omit [DecidableEq Shape] in
theorem Provider.Inv.safe (h : s.Inv) : s.Safe := by
  have hplace := h.books.place
  have hever := h.books.ever
  have hbegun := h.books.begun
  have hbatches := batches_eq s.flights
  have hone (r : Nat) : (if r < s.built then 1 else 0) ≤ 1 := by split <;> omega
  have hinUse : ∀ held ∈ s.helds, ∀ r ∈ held, r ∉ s.begun := by
    intro held hheld r hr hin
    have hpos := h.held held hheld r hr
    have hin := List.count_pos_iff.mpr hin
    have := hplace r
    have := hbegun r
    have := hbatches r
    have := hone r
    omega
  refine ⟨hinUse, ?_, fun r hr => ?_, fun r hr => ?_, fun n hn r hr => ?_, fun hshut => (h.shut hshut).2.2⟩
  · refine List.nodup_iff_count_le_one.mpr fun r => ?_
    have := hplace r
    have := hbegun r
    have := hbatches r
    have := hone r
    omega
  · have hin := List.count_pos_iff.mpr hr
    have hlost : s.lost.count r = 0 := by
      rw [h.books.lost]
      rfl
    by_cases hretired : r ∈ s.retired
    · exact .inl hretired
    by_cases hrest : r ∈ s.flights.flatMap fun f => f.2.rest
    · exact .inr (.inl (List.mem_flatMap.mp hrest))
    refine .inr (.inr (List.count_pos_iff.mp ?_))
    have := List.count_eq_zero.mpr hretired
    have := List.count_eq_zero.mpr hrest
    have := hplace r
    have := hever r
    have := hbegun r
    have := hbatches r
    have := hone r
    omega
  · by_cases hcurrent : r ∈ currents s.flights
    · exact .inl (List.mem_map.mp hcurrent)
    by_cases hclosed : r ∈ s.closed
    · exact .inr (.inl hclosed)
    refine .inr (.inr ?_)
    refine List.mem_map.mp (List.count_pos_iff.mp ?_)
    have hin := List.count_pos_iff.mpr hr
    have := List.count_eq_zero.mpr hcurrent
    have := List.count_eq_zero.mpr hclosed
    have := hbegun r
    omega
  · have hclosed := (h.books.receipts n hn).2 r hr
    refine ⟨hclosed, fun held hheld hin => hinUse held hheld r hin (List.count_pos_iff.mp ?_)⟩
    have := List.count_pos_iff.mpr hclosed
    have := hbegun r
    omega

/-- In every run whose closings raise only at the end of a batch, and whose invalidations are undisturbed,
the runtimes are closed once, not under a call, and before an invalidation returns. -/
theorem runtimes_are_closed_once {events : List (Event Shape)}
    (hrun : run Provider.step {} events = some s)
    (horderly : Along Provider.step (fun s e => s.orderly e = true) {} events) : s.Safe :=
  (run_invariant_along (I := Provider.Inv) (fun _ _ _ h horderly hstep => inv_step h horderly hstep) inv_initial
    horderly hrun).safe

def invalidatedSession : List (Event Unit) :=
  [.call, .obtain 0 "s" () true, .leave 0, .invalidate "s", .lock 1, .closed 1]

theorem runtimes_are_closed_once_invalidated : ∃ s : Provider Unit,
    run Provider.step {} invalidatedSession = some s ∧ s.receipts = [1] ∧ s.closed = [0] ∧ s.Safe := by
  have htrace : (run Provider.step {} invalidatedSession).map (fun s => (s.receipts, s.closed))
      = some ([1], [0]) := rfl
  obtain ⟨s, hrun, hrest⟩ := Option.map_eq_some_iff.mp htrace
  obtain ⟨hreceipts, hclosed⟩ := Prod.mk.inj hrest
  exact ⟨s, hrun, hreceipts, hclosed, runtimes_are_closed_once hrun (by decide)⟩

/-- Two runtimes are dropped together, and closing the first one raises. Or a session is closed, and invalidated
while its runtime is still closing. -/
theorem runtime_left_open :
    (∃ s : Provider Unit, run Provider.step {}
        [.call, .obtain 0 "s" () true, .obtain 0 "t" () true, .leave 0, .rebuild, .closeSession "s", .raised 1] =
          some s ∧ s.ever = [0, 1] ∧ s.begun = [0] ∧ s.lost = [1] ∧ ¬ s.Safe) ∧
    ∃ s : Provider Unit, run Provider.step {}
        [.call, .obtain 0 "s" () true, .leave 0, .closeSession "s", .invalidate "s", .lock 2] = some s ∧
      s.ever = [0] ∧ s.receipts = [1] ∧ s.closed = [] ∧ ¬ s.Safe := by
  constructor
  · have htrace : (run Provider.step ({} : Provider Unit)
        [.call, .obtain 0 "s" () true, .obtain 0 "t" () true, .leave 0, .rebuild, .closeSession "s",
          .raised 1]).map (fun s => (s.ever, s.begun, s.lost, s.retired, s.flights.length))
        = some ([0, 1], [0], [1], [], 0) := rfl
    obtain ⟨s, hrun, hrest⟩ := Option.map_eq_some_iff.mp htrace
    simp only [Prod.mk.injEq] at hrest
    obtain ⟨hever, hbegun, hlost, hretired, hflights⟩ := hrest
    refine ⟨s, hrun, hever, hbegun, hlost, fun hsafe => ?_⟩
    have haccounted := hsafe.accounted 1 (by rw [hever]; decide)
    rw [hretired, List.length_eq_zero_iff.mp hflights, hbegun] at haccounted
    simp at haccounted
  · have htrace : (run Provider.step ({} : Provider Unit)
        [.call, .obtain 0 "s" () true, .leave 0, .closeSession "s", .invalidate "s", .lock 2]).map
          (fun s => (s.ever, s.receipts, s.closed)) = some ([0], [1], []) := rfl
    obtain ⟨s, hrun, hrest⟩ := Option.map_eq_some_iff.mp htrace
    simp only [Prod.mk.injEq] at hrest
    obtain ⟨hever, hreceipts, hclosed⟩ := hrest
    refine ⟨s, hrun, hever, hreceipts, hclosed, fun hsafe => ?_⟩
    have hnone := (hsafe.receipts 1 (by rw [hreceipts]; decide) 0 (by rw [hever]; decide)).1
    simp [hclosed] at hnone

end OpenAgent.Models.Resources
