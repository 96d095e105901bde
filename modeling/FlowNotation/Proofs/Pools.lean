import FlowNotation.Proofs.Readings

/-! Pools of workers. Workers take waiting jobs in the order in which these were handed in, and finish
them in any order; the results are collected in the order of the jobs, up to the first fault. The
main statement says that, however the workers take turns, a pool comes to the result of doing the
jobs one by one. -/
namespace FlowNotation

inductive Stage (β : Type)
  -- how far a pool is with a job
  | waiting
  | running
  | done (result : β)

namespace Stage

variable {β : Type}

def isWaiting : Stage β → Bool
  | waiting => true
  | _ => false

def isRunning : Stage β → Bool
  | running => true
  | _ => false

def left : Stage β → Nat
  -- how often a worker has to turn to the job
  | waiting => 2
  | running => 1
  | done _ => 0

theorem eq_waiting_of_isWaiting (s : Stage β) (h : s.isWaiting = true) : s = waiting := by
  cases s with
  | waiting => rfl
  | running | done => cases h

theorem eq_running_of_isRunning (s : Stage β) (h : s.isRunning = true) : s = running := by
  cases s with
  | running => rfl
  | waiting | done => cases h

theorem exists_eq_done (s : Stage β) (hw : ¬ s.isWaiting = true) (hr : ¬ s.isRunning = true) :
    ∃ b, s = done b := by
  cases s with
  | waiting => exact absurd rfl hw
  | running => exact absurd rfl hr
  | done b => exact ⟨b, rfl⟩

end Stage

abbrev Pool (α β : Type) :=
  List (α × Stage β)

namespace Pool

variable {α β ε : Type}

def ofJobs (as : List α) : Pool α β := as.map fun a => (a, .waiting)

def jobs (pool : Pool α β) : List α := pool.map Prod.fst

def busy (pool : Pool α β) : Nat :=
  pool.countP fun j => j.2.isRunning

inductive Step (workers : Nat) (f : α → β) (pool : Pool α β) : Pool α β → Prop
  -- a worker without a job takes the first one that waits, or one finishes its job
  | take (before after : Pool α β) (a : α) : pool = before ++ (a, .waiting) :: after →
      (∀ j ∈ before, ¬ j.2.isWaiting = true) → pool.busy < workers →
      Step workers f pool (before ++ (a, .running) :: after)
  | finish (before after : Pool α β) (a : α) : pool = before ++ (a, .running) :: after →
      Step workers f pool (before ++ (a, .done (f a)) :: after)

def collect : Pool α (Except ε β) → Option (Except ε (List β))
  -- The results in the order of the jobs, or the first fault among them. There is nothing to tell
  -- while a result is missing that stands before the first fault.
  | [] => some (.ok [])
  | (_, .done (.error e)) :: _ => some (.error e)
  | (_, .done (.ok b)) :: pool => (collect pool).map fun r => r.map fun bs => b :: bs
  | (_, .waiting) :: _ => none
  | (_, .running) :: _ => none

inductive Delivers (workers : Nat) (f : α → Except ε β) :
    Pool α (Except ε β) → Except ε (List β) → Prop
  -- whatever the workers do, the pool comes to tell `r` after finitely many steps, and there is a
  -- step to do until then
  | told (pool : Pool α (Except ε β)) (r : Except ε (List β)) : pool.collect = some r →
      Delivers workers f pool r
  | awaited (pool : Pool α (Except ε β)) (r : Except ε (List β)) : pool.collect = none →
      (∃ next, Step workers f pool next) →
      (∀ next, Step workers f pool next → Delivers workers f next r) → Delivers workers f pool r

/-! ## One step -/

def Sound (f : α → β) (pool : Pool α β) : Prop :=
  ∀ a b, (a, .done b) ∈ pool → b = f a

def left : Pool α β → Nat
  | [] => 0
  | (_, s) :: pool => s.left + left pool

theorem left_append (pool pool' : Pool α β) : left (pool ++ pool') = pool.left + pool'.left := by
  induction pool with
  | nil => exact (Nat.zero_add _).symm
  | cons j pool ih =>
    rw [List.cons_append, left, left, ih]
    exact (Nat.add_assoc ..).symm

section Step

variable {workers : Nat} {f : α → β} {pool next : Pool α β}

theorem Step.jobs_eq (h : Step workers f pool next) : next.jobs = pool.jobs := by
  cases h with
  | take before after a hp => simp [hp, jobs]
  | finish before after a hp => simp [hp, jobs]

/-- Where one job changes, every other one was there before. -/
theorem mem_of_replaced (before after : Pool α β) (old new j : α × Stage β)
    (h : j ∈ before ++ new :: after) : j = new ∨ j ∈ before ++ old :: after := by
  rcases List.mem_append.mp h with h | h
  · exact .inr (List.mem_append_left _ h)
  · rcases List.mem_cons.mp h with h | h
    · exact .inl h
    · exact .inr (List.mem_append_right _ (List.mem_cons_of_mem _ h))

/-- The step lemma: what a pool has computed stays right. -/
theorem Step.sound (h : Step workers f pool next) (hs : pool.Sound f) : next.Sound f := by
  intro b r hb
  cases h with
  | take before after a hp =>
    rcases mem_of_replaced before after (a, .waiting) _ _ hb with he | hb
    · cases he
    · exact hs b r (hp ▸ hb)
  | finish before after a hp =>
    rcases mem_of_replaced before after (a, .running) _ _ hb with he | hb
    -- the result that is new
    · cases he
      rfl
    · exact hs b r (hp ▸ hb)

/-- Each step leaves less work, so every schedule ends. -/
theorem Step.left_lt (h : Step workers f pool next) : next.left < pool.left := by
  cases h with
  | take before after a hp =>
    rw [hp, left_append, left_append]
    simp only [left, Stage.left]
    omega
  | finish before after a hp =>
    rw [hp, left_append, left_append]
    simp only [left, Stage.left]
    omega

end Step

/-! ## All schedules -/

variable {f : α → Except ε β} {pool : Pool α (Except ε β)}

theorem collect_ne_none (h : ∀ j ∈ pool, ∃ r, j.2 = .done r) : pool.collect ≠ none := by
  induction pool with
  | nil => exact Option.some_ne_none _
  | cons j pool ih =>
    obtain ⟨a, s⟩ := j
    obtain ⟨r, rfl⟩ : ∃ r, s = .done r := h _ List.mem_cons_self
    have hrest : collect pool ≠ none := ih fun j hj => h j (List.mem_cons_of_mem _ hj)
    cases r with
    | error e => exact Option.some_ne_none _
    | ok b => simpa [collect] using hrest

/-- What a pool tells is the result of doing the jobs one by one. -/
theorem eq_mapM_of_collect (hs : pool.Sound f) (r : Except ε (List β))
    (h : pool.collect = some r) : r = pool.jobs.mapM f := by
  induction pool generalizing r with
  | nil =>
    cases h
    rfl
  | cons j pool ih =>
    have hs' : Sound f pool := fun a b hb => hs a b (List.mem_cons_of_mem _ hb)
    obtain ⟨a, s⟩ := j
    cases s with
    | waiting | running => cases h
    | done b =>
      have hb : b = f a := hs a b List.mem_cons_self
      have hcons : jobs ((a, .done b) :: pool) = a :: jobs pool := rfl
      rw [hcons, List.mapM_cons, ← hb]
      cases b with
      | error e =>
        cases h
        rfl
      | ok b =>
        obtain ⟨q, hq, rfl⟩ := Option.map_eq_some_iff.mp h
        rw [← ih hs' q hq]
        cases q <;> rfl

/-- While there is nothing to tell, some worker can take a job or finish one. -/
theorem exists_step (workers : Nat) (hw : 0 < workers) (h : pool.collect = none) :
    ∃ next, Step workers f pool next := by
  by_cases hr : ∃ j ∈ pool, j.2.isRunning = true
  · obtain ⟨⟨a, s⟩, hj, hr⟩ := hr
    obtain rfl : s = .running := s.eq_running_of_isRunning hr
    obtain ⟨before, after, hp⟩ := List.append_of_mem hj
    exact ⟨_, .finish before after a hp⟩
  -- no worker has a job, so the first job that waits can be taken
  · have hidle : ∀ j ∈ pool, ¬ j.2.isRunning = true := fun j hj hjr => hr ⟨j, hj, hjr⟩
    have hbusy : pool.busy = 0 := List.countP_eq_zero.mpr hidle
    have hwaiting : (pool.find? fun j => j.2.isWaiting) ≠ none := by
      intro hno
      rw [List.find?_eq_none] at hno
      exact collect_ne_none (fun j hj => j.2.exists_eq_done (hno j hj) (hidle j hj)) h
    obtain ⟨⟨a, s⟩, ha⟩ := Option.ne_none_iff_exists'.mp hwaiting
    obtain ⟨hs, before, after, hp, hbefore⟩ := List.find?_eq_some_iff_append.mp ha
    obtain rfl : s = .waiting := s.eq_waiting_of_isWaiting hs
    refine ⟨_, .take before after a hp ?_ (hbusy ▸ hw)⟩
    intro j hj
    simpa using hbefore j hj

/-- Every schedule of a pool with a worker comes to the result of doing the jobs one by one. -/
theorem delivers_mapM (workers : Nat) (hw : 0 < workers) (hs : pool.Sound f) :
    Delivers workers f pool (pool.jobs.mapM f) := by
  -- each step leaves fewer turns, and keeps the jobs and the soundness of their results
  induction hn : pool.left using Nat.strongRecOn generalizing pool with
  | ind n ih =>
    cases hc : pool.collect with
    | some r =>
      have hr : r = pool.jobs.mapM f := eq_mapM_of_collect hs r hc
      exact .told pool _ (hr ▸ hc)
    | none =>
      refine .awaited pool _ hc (exists_step workers hw hc) ?_
      intro next hstep
      rw [← hstep.jobs_eq]
      exact ih next.left (hn ▸ hstep.left_lt) (hstep.sound hs) rfl

theorem delivers_ofJobs (f : α → Except ε β) (workers : Nat) (hw : 0 < workers) (as : List α) :
    Delivers workers f (ofJobs as) (as.mapM f) := by
  have hs : (ofJobs as).Sound f := by
    intro a b hb
    obtain ⟨c, _, hc⟩ := List.mem_map.mp hb
    cases hc
  have hjobs : (ofJobs as : Pool α (Except ε β)).jobs = as := by
    simp [jobs, ofJobs, Function.comp_def]
  have h := delivers_mapM workers hw hs
  rwa [hjobs] at h

end Pool
end FlowNotation
