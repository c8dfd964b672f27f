import Fndr.Inference.ModelWorker

set_option autoImplicit false

/-! # Queue discipline of the model worker

What is numbered, pushed and taken on a run, read off its steps. `Job::cmp` orders the jobs totally,
so a queue has a greatest job, the one of the highest priority that was numbered first. Jobs are
neither made up nor lost between two of these points (`numbered_perm`, `pushed_perm`,
`taken_perm`), and from every state of a run the rest of the queue can be served in order, after a
failed load as at any other time (`serve_queue`). -/

namespace Fndr

open RustStd Runs

/-! ## The order of the jobs -/

/-- `Priority::cmp`, the derived one. -/
def Priority.cmp (a b : Priority) : Ordering := compare a.rank b.rank

/-- `Job::cmp`. -/
def Job.cmp (a b : Job) : Ordering := (a.priority.cmp b.priority).then (compare b.seq a.seq)

theorem Priority.rank_injective : Function.Injective Priority.rank := by
  intro a b h
  cases a <;> cases b <;> first | rfl | cases h

theorem Job.le_iff_cmp (a b : Job) : a.Le b ↔ (a.cmp b).isLE := by
  rw [Job.Le, Job.cmp, Priority.cmp, Ordering.isLE_then_iff_or, Nat.compare_eq_lt,
    Nat.compare_eq_eq, Nat.isLE_compare]

namespace Job.Le

theorem refl (a : Job) : a.Le a := Or.inr ⟨rfl, le_rfl⟩

theorem trans {a b c : Job} (hab : a.Le b) (hbc : b.Le c) : a.Le c := by
  unfold Job.Le at hab hbc ⊢
  omega

theorem total (a b : Job) : a.Le b ∨ b.Le a := by
  unfold Job.Le
  omega

/-- `Job::eq`: two jobs that are not ordered agree on what is compared. -/
theorem antisymm {a b : Job} (hab : a.Le b) (hba : b.Le a) :
    a.priority = b.priority ∧ a.seq = b.seq := by
  unfold Job.Le at hab hba
  exact ⟨Priority.rank_injective (by omega), by omega⟩

/-- A job below another one has a lower priority, or the same one and a later number. -/
theorem priority_le {a b : Job} (h : a.Le b) :
    a.priority.rank ≤ b.priority.rank ∧ (a.priority = b.priority → b.seq ≤ a.seq) := by
  rcases h with h | ⟨h, hseq⟩
  · exact ⟨h.le, fun hsame => absurd (congrArg Priority.rank hsame) h.ne⟩
  · exact ⟨h.le, fun _ => hseq⟩

end Job.Le

/-- A queue that is not empty has a greatest job. -/
theorem exists_greatest {queue : List Job} (h : queue ≠ []) :
    ∃ job ∈ queue, ∀ other ∈ queue, other.Le job := by
  induction queue with
  | nil => exact absurd rfl h
  | cons first queue ih =>
      by_cases hnil : queue = []
      · subst hnil
        exact ⟨first, List.mem_cons_self, fun other hother =>
          List.mem_singleton.1 hother ▸ Job.Le.refl first⟩
      · obtain ⟨job, hjob, hgreatest⟩ := ih hnil
        rcases Job.Le.total first job with hle | hle
        · exact ⟨job, List.mem_cons_of_mem _ hjob, List.forall_mem_cons.2 ⟨hle, hgreatest⟩⟩
        · exact ⟨first, List.mem_cons_self, List.forall_mem_cons.2
            ⟨Job.Le.refl first, fun other hother => (hgreatest other hother).trans hle⟩⟩

/-! ## What a run numbers, pushes and takes -/

namespace ModelWorker

/-- The job that a submission gets its number for. -/
def numbersJob (worker : ModelWorker) : ModelWorkerStep → Option Job
  | .number priority kind =>
      if worker.shutdown then none else some ⟨priority, worker.seq, kind, worker.channels⟩
  | _ => none

/-- The job that the step puts into the queue. -/
def pushesJob (worker : ModelWorker) : ModelWorkerStep → Option Job
  | .push job => if job ∈ worker.entering then some job else none
  | _ => none

/-- The job that a step puts into the hand of the idle worker. -/
def takesJob (worker : ModelWorker) : ModelWorkerStep → Option Job
  | .take job =>
      if worker.phase = .idle ∧ (worker.exec (.take job)).phase = .inHand job then some job
      else none
  | _ => none

/-- The same job, with the queue it was taken from. -/
def takesFrom (worker : ModelWorker) (step : ModelWorkerStep) : Option (List Job × Job) :=
  (worker.takesJob step).map fun job => (worker.queue, job)

end ModelWorker

/-- The jobs that are numbered, pushed and taken on a run from the spawned worker. -/
def numberedJobs (steps : List ModelWorkerStep) : List Job :=
  trace ModelWorker.exec ModelWorker.numbersJob .spawned steps

/-- The jobs that were put into the queue, in order. -/
def pushedJobs (steps : List ModelWorkerStep) : List Job :=
  trace ModelWorker.exec ModelWorker.pushesJob .spawned steps

/-- The jobs that were taken out of the queue, in order. -/
def takenJobs (steps : List ModelWorkerStep) : List Job :=
  trace ModelWorker.exec ModelWorker.takesJob .spawned steps

/-- Every job taken, with the queue it was taken from. -/
def takenFrom (steps : List ModelWorkerStep) : List (List Job × Job) :=
  trace ModelWorker.exec ModelWorker.takesFrom .spawned steps

namespace ModelWorker

/-- A job is taken from the top of the queue, or none is. -/
theorem exec_take (worker : ModelWorker) (job : Job) :
    (worker.takesJob (.take job) = some job ∧ worker.phase = .idle ∧ job ∈ worker.queue ∧
      (∀ other ∈ worker.queue, other.Le job) ∧
      worker.exec (.take job) =
        { worker with queue := worker.queue.erase job, phase := .inHand job }) ∨
    (worker.takesJob (.take job) = none ∧
      (worker.exec (.take job) = worker ∨ worker.exec (.take job) = worker.endThread)) := by
  by_cases hidle : worker.phase = .idle
  · by_cases hshutdown : worker.shutdown = true
    · have hexec : worker.exec (.take job) = worker.endThread := by
        simp [ModelWorker.exec, hidle, hshutdown]
      exact Or.inr ⟨by simp [takesJob, hexec, endThread], Or.inr hexec⟩
    · by_cases hpop : job ∈ worker.queue ∧ ∀ other ∈ worker.queue, other.Le job
      · have hexec : worker.exec (.take job) =
            { worker with queue := worker.queue.erase job, phase := .inHand job } := by
          simp only [ModelWorker.exec, hidle, if_neg hshutdown, if_pos hpop]
        exact Or.inl ⟨by simp [takesJob, hidle, hexec], hidle, hpop.1, hpop.2, hexec⟩
      · have hexec : worker.exec (.take job) = worker := by
          simp only [ModelWorker.exec, hidle, if_neg hshutdown, if_neg hpop]
        exact Or.inr ⟨by simp [takesJob, hexec, hidle], Or.inl hexec⟩
  · have hexec : worker.exec (.take job) = worker := by
      unfold ModelWorker.exec
      dsimp only
      split
      · next h => exact absurd h hidle
      · rfl
    exact Or.inr ⟨by simp [takesJob, hidle], Or.inl hexec⟩

/-! ## Conservation -/

/-- Only a push and a take move jobs between the lists, and only numbering uses a channel. -/
theorem lists_of_effect {worker after : ModelWorker} {step : ModelWorkerStep}
    (h : worker.Effect step after) :
    (after.entering = worker.entering ∧ after.channels = worker.channels ∨
      (∃ priority kind, step = .number priority kind) ∨ ∃ job, step = .push job) ∧
    (after.queue = worker.queue ∨ ∃ job, step = .push job ∨ step = .take job) := by
  cases h with
  | numbered priority kind => exact ⟨Or.inr (Or.inl ⟨_, _, rfl⟩), Or.inl rfl⟩
  | pushed job => exact ⟨Or.inr (Or.inr ⟨_, rfl⟩), Or.inr ⟨_, Or.inl rfl⟩⟩
  | taken job => exact ⟨Or.inl ⟨rfl, rfl⟩, Or.inr ⟨_, Or.inr rfl⟩⟩
  | _ => exact ⟨Or.inl ⟨rfl, rfl⟩, Or.inl rfl⟩

/-- Jobs that are numbered enter, and leave when they are pushed. -/
theorem entering_step (worker : ModelWorker) (step : ModelWorkerStep) :
    (worker.entering ++ (worker.numbersJob step).toList).Perm
      ((worker.pushesJob step).toList ++ (worker.exec step).entering) := by
  have hlists := (lists_of_effect (worker.exec_effect step)).1
  cases step with
  | number priority kind =>
      by_cases hshutdown : worker.shutdown = true
      · simp [numbersJob, pushesJob, ModelWorker.exec, hshutdown]
      · simp [numbersJob, pushesJob, ModelWorker.exec, hshutdown]
  | push job =>
      by_cases hentering : job ∈ worker.entering
      · simpa [numbersJob, pushesJob, ModelWorker.exec, hentering] using
          List.perm_cons_erase hentering
      · simp [numbersJob, pushesJob, ModelWorker.exec, hentering]
  | _ =>
      simp only [reduceCtorEq, exists_false, or_false] at hlists
      simp [numbersJob, pushesJob, hlists.1]

/-- Jobs that are pushed wait in the queue, and leave it when they are taken. -/
theorem queue_step (worker : ModelWorker) (step : ModelWorkerStep) :
    (worker.queue ++ (worker.pushesJob step).toList).Perm
      ((worker.takesJob step).toList ++ (worker.exec step).queue) := by
  have hlists := (lists_of_effect (worker.exec_effect step)).2
  cases step with
  | push job =>
      by_cases hentering : job ∈ worker.entering
      · simp [pushesJob, takesJob, ModelWorker.exec, hentering]
      · simp [pushesJob, takesJob, ModelWorker.exec, hentering]
  | take job =>
      rcases worker.exec_take job with ⟨htakes, -, hqueue, -, hexec⟩ | ⟨htakes, hexec | hexec⟩
      · simpa [pushesJob, htakes, hexec] using List.perm_cons_erase hqueue
      · simp [pushesJob, htakes, hexec]
      · simp [pushesJob, htakes, hexec, endThread]
  | _ =>
      simp only [reduceCtorEq, or_self, exists_false, or_false] at hlists
      simp [pushesJob, takesJob, hlists]

/-- What the worker has taken and not lost: the job in hand and the answered ones. -/
def served (worker : ModelWorker) : List Job := worker.replies.map Reply.job ++ worker.phase.hand

/-- A job that is taken is in hand until it is answered or the thread ends. -/
theorem served_step (worker : ModelWorker) (step : ModelWorkerStep)
    (h : (worker.exec step).phase ≠ .ended) :
    (worker.served ++ (worker.takesJob step).toList).Perm (worker.exec step).served := by
  by_cases htake : ∃ job, step = .take job
  · obtain ⟨job, rfl⟩ := htake
    rcases worker.exec_take job with ⟨htakes, hidle, -, -, hexec⟩ | ⟨htakes, hexec | hexec⟩
    · simp [served, htakes, hexec, hidle, ThreadPhase.hand]
    · simp [htakes, hexec]
    · rw [hexec] at h
      exact absurd rfl h
  · have hnone : worker.takesJob step = none := by
      cases step with
      | take job => exact absurd ⟨job, rfl⟩ htake
      | _ => rfl
    rw [hnone, Option.toList_none, List.append_nil]
    have heffect := worker.exec_effect step
    generalize worker.exec step = after at heffect h ⊢
    cases heffect with
    | answered _ job result hphase => simp [served, respond, hphase, ThreadPhase.hand]
    | taken job => exact absurd ⟨_, rfl⟩ htake
    | shutDown => exact absurd rfl h
    | loadPanicked => exact absurd rfl h
    | embedPanicked => exact absurd rfl h
    | _ => exact List.Perm.refl _

/-- A thread that has ended stays so. -/
theorem ended_of_ended {worker : ModelWorker} (h : worker.phase = .ended)
    (steps : List ModelWorkerStep) : (final ModelWorker.exec worker steps).phase = .ended := by
  induction steps generalizing worker with
  | nil => exact h
  | cons step steps ih =>
      refine ih ?_
      have heffect := worker.exec_effect step
      generalize worker.exec step = after at heffect ⊢
      cases heffect with
      | answered _ job result hphase => rw [h] at hphase; cases hphase
      | taken job hidle => rw [h] at hidle; cases hidle
      | shutDown | loadPanicked | embedPanicked => rfl
      | _ => exact h

/-- While the thread runs, no job that was taken is lost. By induction on the steps. -/
theorem served_perm (worker : ModelWorker) (steps : List ModelWorkerStep)
    (h : (final ModelWorker.exec worker steps).phase ≠ .ended) :
    (worker.served ++ trace ModelWorker.exec takesJob worker steps).Perm
      (final ModelWorker.exec worker steps).served := by
  induction steps generalizing worker with
  | nil => simp [trace, final]
  | cons step steps ih =>
      have hstep := worker.served_step step fun hended => h (ended_of_ended hended steps)
      rw [trace, ← List.append_assoc]
      exact (hstep.append_right _).trans (ih (worker.exec step) h)

/-! ## Every job is pushed and taken once -/

theorem numbers_step (worker : ModelWorker) (step : ModelWorkerStep) :
    (worker.numbersJob step = none ∧ (worker.exec step).channels = worker.channels) ∨
      ∃ job, worker.numbersJob step = some job ∧ job.respond = worker.channels ∧
        (worker.exec step).channels = worker.channels + 1 := by
  have hlists := (lists_of_effect (worker.exec_effect step)).1
  cases step with
  | number priority kind =>
      by_cases hshutdown : worker.shutdown = true
      · simp [numbersJob, ModelWorker.exec, hshutdown]
      · simp [numbersJob, ModelWorker.exec, hshutdown]
  | push job =>
      by_cases hentering : job ∈ worker.entering
      · simp [numbersJob, ModelWorker.exec, hentering]
      · simp [numbersJob, ModelWorker.exec, hentering]
  | _ =>
      simp only [reduceCtorEq, exists_false, or_false] at hlists
      exact Or.inl ⟨rfl, hlists.2⟩

/-- Jobs are numbered on channels that were not used before. -/
theorem numbered_fresh (worker : ModelWorker) (steps : List ModelWorkerStep) :
    (∀ job ∈ trace ModelWorker.exec numbersJob worker steps, worker.channels ≤ job.respond) ∧
      ((trace ModelWorker.exec numbersJob worker steps).map Job.respond).Nodup := by
  induction steps generalizing worker with
  | nil => exact ⟨nofun, List.nodup_nil⟩
  | cons step steps ih =>
      obtain ⟨hlater, hnodup⟩ := ih (worker.exec step)
      rw [trace]
      rcases worker.numbers_step step with ⟨hnone, hchannels⟩ | ⟨job, hjob, hrespond, hchannels⟩
      · rw [hnone, ← hchannels]
        exact ⟨hlater, hnodup⟩
      · rw [hjob, Option.toList_some, List.singleton_append, List.map_cons, List.nodup_cons]
        rw [hchannels] at hlater
        refine ⟨List.forall_mem_cons.2 ⟨hrespond.ge, fun other hother => ?_⟩,
          fun hmem => ?_, hnodup⟩
        · exact (Nat.le_succ _).trans (hlater other hother)
        · obtain ⟨other, hother, hsame⟩ := List.mem_map.1 hmem
          have hle := hlater other hother
          omega

end ModelWorker

theorem pushed_perm (steps : List ModelWorkerStep) :
    (pushedJobs steps).Perm
      (takenJobs steps ++ (final ModelWorker.exec .spawned steps).queue) := by
  have hperm := trace_perm ModelWorker.queue_step .spawned steps
  rwa [show ModelWorker.spawned.queue = [] from rfl, List.nil_append] at hperm

theorem numbered_perm (steps : List ModelWorkerStep) :
    (numberedJobs steps).Perm
      (pushedJobs steps ++ (final ModelWorker.exec .spawned steps).entering) := by
  have hperm := trace_perm ModelWorker.entering_step .spawned steps
  rwa [show ModelWorker.spawned.entering = [] from rfl, List.nil_append] at hperm

theorem taken_perm {steps : List ModelWorkerStep}
    (h : (final ModelWorker.exec .spawned steps).phase ≠ .ended) :
    (takenJobs steps).Perm (final ModelWorker.exec .spawned steps).served := by
  have hperm := ModelWorker.spawned.served_perm steps h
  rwa [show ModelWorker.spawned.served = [] from rfl, List.nil_append] at hperm

/-- No two jobs that are pushed answer on one channel, so none is pushed or taken twice. -/
theorem pushedJobs_nodup (steps : List ModelWorkerStep) :
    ((pushedJobs steps).map Job.respond).Nodup := by
  have hnumbered := (ModelWorker.spawned.numbered_fresh steps).2
  have hsplit := ((numbered_perm steps).map Job.respond).nodup_iff.1 hnumbered
  rw [List.map_append] at hsplit
  exact hsplit.of_append_left

theorem takenJobs_nodup (steps : List ModelWorkerStep) :
    ((takenJobs steps).map Job.respond).Nodup := by
  have hsplit := ((pushed_perm steps).map Job.respond).nodup_iff.1 (pushedJobs_nodup steps)
  rw [List.map_append] at hsplit
  exact hsplit.of_append_left

/-! ## Jobs are served -/

/-- The worker takes a job, loads the model if it has none, and answers. -/
def serve (embedder : LoadedEmbedder) (job : Job) : List ModelWorkerStep :=
  [.take job, .load (.returned (.ok ())), .embed embedder]

section Serve

variable {embedder : LoadedEmbedder} {answer : WorkKind → JobResult}

theorem serve_job (hanswer : ∀ kind, embedder.run kind = .returned (answer kind))
    {worker : ModelWorker} (hidle : worker.phase = .idle) (hopen : worker.shutdown = false)
    {job : Job} (hjob : job ∈ worker.queue) (hgreatest : ∀ other ∈ worker.queue, other.Le job) :
    final ModelWorker.exec worker (serve embedder job) = { worker with
      queue := worker.queue.erase job
      model := true
      replies := worker.replies ++ [⟨job.respond, job, answer job.kind⟩] } := by
  have htake : worker.exec (.take job) =
      { worker with queue := worker.queue.erase job, phase := .inHand job } := by
    simp only [ModelWorker.exec, hidle, hopen, if_pos (And.intro hjob hgreatest)]
    simp
  have hload : ({ worker with queue := worker.queue.erase job, phase := .inHand job } :
      ModelWorker).exec (.load (.returned (.ok ()))) =
      { worker with queue := worker.queue.erase job, phase := .inHand job, model := true } := by
    cases worker.model <;> simp [ModelWorker.exec]
  simp only [final, serve, List.foldl_cons, List.foldl_nil, htake, hload]
  simp [ModelWorker.exec, hanswer, ModelWorker.respond, hidle]

/-- The queue of an idle worker is answered in the order of its jobs. By induction on its length. -/
theorem serve_queue (hanswer : ∀ kind, embedder.run kind = .returned (answer kind))
    {worker : ModelWorker} (hidle : worker.phase = .idle) (hopen : worker.shutdown = false) :
    ∃ order : List Job, order.Perm worker.queue ∧
      order.Pairwise (fun first second => second.Le first) ∧
      (final ModelWorker.exec worker (order.flatMap (serve embedder))).queue = [] ∧
      (final ModelWorker.exec worker (order.flatMap (serve embedder))).replies =
        worker.replies ++ order.map fun job => ⟨job.respond, job, answer job.kind⟩ := by
  induction hlength : worker.queue.length generalizing worker with
  | zero =>
      have hnil := List.length_eq_zero_iff.1 hlength
      exact ⟨[], hnil ▸ List.Perm.refl _, List.Pairwise.nil, hnil, by simp [final]⟩
  | succ n ih =>
      have hne : worker.queue ≠ [] := fun hnil => by simp [hnil] at hlength
      obtain ⟨job, hjob, hgreatest⟩ := exists_greatest hne
      have hserve := serve_job hanswer hidle hopen hjob hgreatest
      obtain ⟨order, hperm, hsorted, hqueue, hreplies⟩ :=
        @ih (final ModelWorker.exec worker (serve embedder job))
        (by rw [hserve]; exact hidle) (by rw [hserve]; exact hopen)
        (by rw [hserve, List.length_erase_of_mem hjob, hlength]; rfl)
      rw [hserve] at hperm
      refine ⟨job :: order, (hperm.cons job).trans (List.perm_cons_erase hjob).symm,
        List.Pairwise.cons (fun other hother => ?_) hsorted, ?_, ?_⟩
      · exact hgreatest other (List.mem_of_mem_erase (hperm.mem_iff.1 hother))
      · rw [List.flatMap_cons, final_append, hqueue]
      · rw [List.flatMap_cons, final_append, hreplies, hserve]
        simp

end Serve

/-! ## The discipline -/

/-- What a run of the model worker keeps to. -/
structure QueueDiscipline (steps : List ModelWorkerStep) : Prop where
  /-- A job is taken before every queued one of a lower priority, and before the later ones of its
      own. -/
  greatest : ∀ queue job, (queue, job) ∈ takenFrom steps → job ∈ queue ∧ ∀ other ∈ queue,
    other.priority.rank ≤ job.priority.rank ∧
      (other.priority = job.priority → job.seq ≤ other.seq)
  takenOnce : (takenJobs steps).Nodup
  /-- What was pushed was taken or is still queued, and nothing else is. -/
  conserved : (pushedJobs steps).Perm
    (takenJobs steps ++ (final ModelWorker.exec .spawned steps).queue)
  /-- While the thread runs, what was taken is answered or in hand. -/
  kept : (final ModelWorker.exec .spawned steps).phase ≠ .ended → (takenJobs steps).Perm
    ((final ModelWorker.exec .spawned steps).replies.map Reply.job ++
      (final ModelWorker.exec .spawned steps).phase.hand)
  /-- A failed load answers the job in hand, and changes nothing else. -/
  loaderError : ∀ job error, (final ModelWorker.exec .spawned steps).phase = .inHand job →
    (final ModelWorker.exec .spawned steps).model = false →
    (final ModelWorker.exec .spawned steps).exec (.load (.returned (.error error))) =
      { final ModelWorker.exec .spawned steps with
        phase := .idle
        replies := (final ModelWorker.exec .spawned steps).replies ++
          [⟨job.respond, job, .error error⟩] }
  /-- Whatever failed before, an idle worker can answer all of the queue, in its order. -/
  served : ∀ (embedder : LoadedEmbedder) (answer : WorkKind → JobResult),
    (∀ kind, embedder.run kind = .returned (answer kind)) →
    (final ModelWorker.exec .spawned steps).phase = .idle →
    (final ModelWorker.exec .spawned steps).shutdown = false →
    ∃ order : List Job, order.Perm (final ModelWorker.exec .spawned steps).queue ∧
      order.Pairwise (fun first second => second.Le first) ∧
      (final ModelWorker.exec .spawned (steps ++ order.flatMap (serve embedder))).queue = [] ∧
      (final ModelWorker.exec .spawned (steps ++ order.flatMap (serve embedder))).replies =
        (final ModelWorker.exec .spawned steps).replies ++
          order.map fun job => ⟨job.respond, job, answer job.kind⟩

theorem greatest_of_mem_takenFrom {steps : List ModelWorkerStep} {queue : List Job} {job : Job}
    (h : (queue, job) ∈ takenFrom steps) : job ∈ queue ∧ ∀ other ∈ queue, other.Le job := by
  obtain ⟨before, step, after, -, hsee⟩ := of_mem_trace h
  obtain ⟨taken, htaken, hpair⟩ := Option.map_eq_some_iff.1 hsee
  obtain ⟨rfl, rfl⟩ := Prod.mk.inj hpair
  cases step with
  | take next =>
      rcases (final ModelWorker.exec .spawned before).exec_take next with
        ⟨htakes, -, hjob, hgreatest, -⟩ | ⟨hnone, -⟩
      · rw [htakes] at htaken
        cases htaken
        exact ⟨hjob, hgreatest⟩
      · rw [hnone] at htaken
        cases htaken
  | _ => cases htaken

/-- **Queue discipline.** On every interleaving of submissions and steps of the worker. -/
theorem queueDiscipline (steps : List ModelWorkerStep) : QueueDiscipline steps where
  greatest queue job h := by
    obtain ⟨hjob, hgreatest⟩ := greatest_of_mem_takenFrom h
    exact ⟨hjob, fun other hother => (hgreatest other hother).priority_le⟩
  takenOnce := (takenJobs_nodup steps).of_map
  conserved := pushed_perm steps
  kept := taken_perm
  loaderError job error hphase hmodel := by
    simp only [ModelWorker.exec, hphase, hmodel, ModelWorker.respond]
  served embedder answer hanswer hidle hopen := by
    simp only [final_append]
    exact serve_queue hanswer hidle hopen

end Fndr
