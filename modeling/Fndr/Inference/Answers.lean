import Fndr.Inference.QueueDiscipline

set_option autoImplicit false

/-! # Whose answer a submission returns

All threads submit to one worker. It serves the highest priority first, loads and unloads its model
in between, and a reply finds its submitter through the channel of the job. `WorkerHistory` is a
worker with the jobs it was given and the calls it made for them. Whatever the interleaving, a
submission returns once at most, and then what the model answered to its own texts, unless the model
did not load for it or the thread was gone (`own_answers`). -/

namespace Fndr

open RustStd Runs

/-- `submit_embed_query` on the reply: the vector of the query. -/
def submitEmbedQuery (reply : JobResult) : Except EmbedError (List F32) :=
  match reply with
  | .error error => .error error
  | .ok rows =>
      match rows.getLast? with
      | some vector => .ok vector
      | none => .error (.failed "worker returned no vector for one query".toList)

namespace ModelWorker

/-- The job for which a step calls the loaded model. -/
def callsModel (worker : ModelWorker) : ModelWorkerStep → Option (Job × LoadedEmbedder)
  | .embed embedder =>
      match worker.phase, worker.model with
      | .inHand job, true => some (job, embedder)
      | _, _ => none
  | _ => none

/-- The job for which a step fails to load the model. -/
def failsToLoad (worker : ModelWorker) : ModelWorkerStep → Option (Job × EmbedError)
  | .load (.returned (.error error)) =>
      match worker.phase, worker.model with
      | .inHand job, false => some (job, error)
      | _, _ => none
  | _ => none

end ModelWorker

/-- A worker with the jobs that were numbered and the calls made for them, in order. -/
structure WorkerHistory where
  worker : ModelWorker
  numbered : List Job
  calls : List (Job × LoadedEmbedder)
  failedLoads : List (Job × EmbedError)

/-- Nothing has happened yet. -/
def WorkerHistory.spawned : WorkerHistory := ⟨.spawned, [], [], []⟩

namespace WorkerHistory

/-- Note what the step numbers, calls and fails to load. -/
def exec (h : WorkerHistory) (step : ModelWorkerStep) : WorkerHistory where
  worker := h.worker.exec step
  numbered := h.numbered ++ (h.worker.numbersJob step).toList
  calls := h.calls ++ (h.worker.callsModel step).toList
  failedLoads := h.failedLoads ++ (h.worker.failsToLoad step).toList

/-- The job was not served: its model did not load, or the thread is gone. -/
def GivenUp (h : WorkerHistory) (job : Job) {α : Type} (result : Except EmbedError α) : Prop :=
  result = .error workerGone ∨ ∃ error, (job, error) ∈ h.failedLoads ∧ result = .error error

/-- Submissions return once, each on the channel of its job, with the answer to its own texts. -/
structure AnswersOwn (h : WorkerHistory) : Prop where
  once : (h.worker.returned.map Prod.fst).Nodup
  channels : (h.numbered.map Job.respond).Nodup ∧
    ∀ answer ∈ h.worker.returned, ∃ job ∈ h.numbered, job.respond = answer.1
  documents : ∀ job ∈ h.numbered, ∀ texts, job.kind = .documents texts →
    ∀ reply, (job.respond, reply) ∈ h.worker.returned → h.GivenUp job reply ∨
      ∃ embedder, (job, embedder) ∈ h.calls ∧ embedder.embedDocuments texts = .returned reply
  queries : ∀ job ∈ h.numbered, ∀ text, job.kind = .query text →
    ∀ reply, (job.respond, reply) ∈ h.worker.returned → h.GivenUp job (submitEmbedQuery reply) ∨
      ∃ embedder, (job, embedder) ∈ h.calls ∧
        embedder.embedQuery text = .returned (submitEmbedQuery reply)

/-! ## What a reply says -/

/-- The answer of a call that was made for the job, or the error of a load. -/
inductive Answered (h : WorkerHistory) (job : Job) : JobResult → Prop
  | embedded (embedder : LoadedEmbedder) (reply : JobResult) (hcall : (job, embedder) ∈ h.calls)
      (hrun : embedder.run job.kind = .returned reply) : Answered h job reply
  | notLoaded (error : EmbedError) (hload : (job, error) ∈ h.failedLoads) :
      Answered h job (.error error)

theorem Answered.exec {h : WorkerHistory} {job : Job} {reply : JobResult} (ha : h.Answered job reply)
    (step : ModelWorkerStep) : (h.exec step).Answered job reply := by
  cases ha with
  | embedded embedder _ hcall hrun =>
      exact .embedded embedder _ (List.mem_append_left _ hcall) hrun
  | notLoaded error hload => exact .notLoaded error (List.mem_append_left _ hload)

/-- The embedder that answered a query answered with the vector its submitter gets. -/
theorem embedQuery_of_run {embedder : LoadedEmbedder} {text : Str} {reply : JobResult}
    (h : embedder.run (.query text) = .returned reply) :
    embedder.embedQuery text = .returned (submitEmbedQuery reply) := by
  unfold LoadedEmbedder.run at h
  dsimp only at h
  cases hquery : embedder.embedQuery text with
  | panicked =>
      rw [hquery] at h
      cases h
  | returned result =>
      rw [hquery] at h
      cases h
      cases result <;> rfl

/-! ## The invariant -/

/-- Every submission has one channel, whether it is entering, waiting or has returned, and what was
    sent to it is about its job. -/
structure Accounted (h : WorkerHistory) : Prop where
  sound : h.worker.Sound
  numbered : (h.numbered.map Job.respond).Nodup
  issued : ∀ job ∈ h.numbered, job.respond < h.worker.channels
  jobs : ∀ job ∈ h.worker.jobs, job ∈ h.numbered
  waiting : ∀ channel ∈ h.worker.waiting, ∃ job ∈ h.numbered, job.respond = channel
  replies : ∀ reply ∈ h.worker.replies, reply.job ∈ h.numbered ∧ h.Answered reply.job reply.result
  returned : ∀ answer ∈ h.worker.returned, ∃ job ∈ h.numbered, job.respond = answer.1 ∧
    (answer.2 = .error workerGone ∨ h.Answered job answer.2)
  slots : (h.worker.entering.map Job.respond ++ h.worker.waiting ++
    h.worker.returned.map Prod.fst).Nodup

theorem accounted_spawned : spawned.Accounted :=
  ⟨ModelWorker.sound_spawned, List.nodup_nil, nofun, nofun, nofun, nofun, nofun, List.nodup_nil⟩

theorem Accounted.sound_exec {h : WorkerHistory} (ha : h.Accounted) (step : ModelWorkerStep) :
    (h.exec step).worker.Sound := ModelWorker.Sound.exec h.worker step ha.sound

/-- What returned stays accounted for. -/
theorem Accounted.returned_exec {h : WorkerHistory} (ha : h.Accounted) (step : ModelWorkerStep) :
    ∀ answer ∈ h.worker.returned, ∃ job ∈ (h.exec step).numbered, job.respond = answer.1 ∧
      (answer.2 = .error workerGone ∨ (h.exec step).Answered job answer.2) := by
  intro answer hanswer
  obtain ⟨job, hjob, hrespond, hgone⟩ := ha.returned answer hanswer
  exact ⟨job, List.mem_append_left _ hjob, hrespond, hgone.imp_right (fun h => h.exec step)⟩

/-- A step inside the worker: nobody submits and nobody returns. -/
theorem Accounted.inside {h : WorkerHistory} (ha : h.Accounted) {step : ModelWorkerStep}
    (hnumbers : h.worker.numbersJob step = none)
    (hchannels : (h.worker.exec step).channels = h.worker.channels)
    (hentering : (h.worker.exec step).entering = h.worker.entering)
    (hwaiting : (h.worker.exec step).waiting = h.worker.waiting)
    (hreturned : (h.worker.exec step).returned = h.worker.returned)
    (hjobs : (h.worker.exec step).jobs ⊆ h.worker.jobs)
    (hreplies : ∀ reply ∈ (h.worker.exec step).replies, reply ∈ h.worker.replies ∨
      reply.job ∈ h.worker.jobs ∧ (h.exec step).Answered reply.job reply.result) :
    (h.exec step).Accounted := by
  have hnumbered : (h.exec step).numbered = h.numbered := by
    unfold WorkerHistory.exec
    rw [hnumbers, Option.toList_none, List.append_nil]
  constructor
  case sound => exact ha.sound_exec step
  case numbered => exact hnumbered ▸ ha.numbered
  case issued => exact hnumbered ▸ hchannels ▸ ha.issued
  case jobs => exact fun job hjob => hnumbered ▸ ha.jobs job (hjobs hjob)
  case waiting =>
    intro channel hchannel
    rw [hnumbered]
    exact ha.waiting channel (hwaiting ▸ hchannel)
  -- a reply is an old one, or it answers a job that was counted
  case replies =>
    intro reply hreply
    rw [hnumbered]
    rcases hreplies reply hreply with hold | ⟨hjob, hanswered⟩
    · exact ⟨(ha.replies reply hold).1, (ha.replies reply hold).2.exec step⟩
    · exact ⟨ha.jobs reply.job hjob, hanswered⟩
  case returned =>
    intro answer hanswer
    exact ha.returned_exec step answer (hreturned ▸ hanswer)
  case slots =>
    have hslots := ha.slots
    rw [← hentering, ← hwaiting, ← hreturned] at hslots
    exact hslots

/-- A step that is not enabled. -/
theorem Accounted.unchanged {h : WorkerHistory} (ha : h.Accounted) {step : ModelWorkerStep}
    (hnumbers : h.worker.numbersJob step = none) (hexec : h.worker.exec step = h.worker) :
    (h.exec step).Accounted := by
  refine ha.inside hnumbers ?_ ?_ ?_ ?_ ?_ ?_
  all_goals rw [hexec]
  · exact List.Subset.refl _
  · exact fun reply hreply => Or.inl hreply

/-- The channels in use were issued. -/
theorem Accounted.lt_channels {h : WorkerHistory} (ha : h.Accounted) {channel : ℕ}
    (hmem : channel ∈ h.worker.entering.map Job.respond ++ h.worker.waiting ++
      h.worker.returned.map Prod.fst) : channel < h.worker.channels := by
  rcases List.mem_append.1 hmem with hmem | hmem
  · rcases List.mem_append.1 hmem with hmem | hmem
    · obtain ⟨job, hjob, rfl⟩ := List.mem_map.1 hmem
      exact ha.issued job (ha.jobs job (List.mem_append_left _ (List.mem_append_left _ hjob)))
    · obtain ⟨job, hjob, rfl⟩ := ha.waiting channel hmem
      exact ha.issued job hjob
  · obtain ⟨answer, hanswer, rfl⟩ := List.mem_map.1 hmem
    obtain ⟨job, hjob, hrespond, -⟩ := ha.returned answer hanswer
    exact hrespond ▸ ha.issued job hjob

/-- A submission is numbered on a channel of its own. -/
theorem Accounted.number {h : WorkerHistory} (ha : h.Accounted) (priority : Priority)
    (kind : WorkKind) : (h.exec (.number priority kind)).Accounted := by
  by_cases hshutdown : h.worker.shutdown = true
  · exact ha.unchanged (if_pos hshutdown) (if_pos hshutdown)
  · -- a submission is told apart by its channel, which no earlier one has
    let job : Job := ⟨priority, h.worker.seq, kind, h.worker.channels⟩
    have hexec : (h.exec (.number priority kind)).worker = { h.worker with
        seq := (h.worker.seq + 1) % 2 ^ 64
        channels := h.worker.channels + 1
        entering := h.worker.entering ++ [job] } := if_neg hshutdown
    have hnumbered : (h.exec (.number priority kind)).numbered = h.numbered ++ [job] := by
      have hjob : h.worker.numbersJob (.number priority kind) = some job := if_neg hshutdown
      unfold WorkerHistory.exec
      rw [hjob]
      rfl
    constructor
    case sound => exact ha.sound_exec _
    case numbered =>
      rw [hnumbered, List.map_append, List.nodup_append']
      refine ⟨ha.numbered, List.nodup_singleton _, ?_⟩
      rintro channel hchannel hjob
      obtain ⟨other, hother, rfl⟩ := List.mem_map.1 hchannel
      exact Nat.ne_of_lt (ha.issued other hother) (List.mem_singleton.1 hjob)
    case issued =>
      rw [hnumbered, hexec]
      intro other hother
      rcases List.mem_append.1 hother with hother | hother
      · exact Nat.lt_succ_of_lt (ha.issued other hother)
      · rw [List.mem_singleton.1 hother]
        exact Nat.lt_succ_self _
    case jobs =>
      rw [hnumbered, hexec]
      intro other hother
      have hcases : other ∈ h.worker.jobs ∨ other = job := by
        simp only [ModelWorker.jobs, List.mem_append, List.mem_singleton] at hother ⊢
        tauto
      exact List.mem_append.2 (hcases.imp (ha.jobs other) List.mem_singleton.2)
    case waiting =>
      rw [hnumbered, hexec]
      intro channel hchannel
      obtain ⟨other, hother, hrespond⟩ := ha.waiting channel hchannel
      exact ⟨other, List.mem_append_left _ hother, hrespond⟩
    case replies =>
      rw [hnumbered, hexec]
      intro reply hreply
      obtain ⟨hjob, hanswered⟩ := ha.replies reply hreply
      exact ⟨List.mem_append_left _ hjob, hanswered.exec _⟩
    case returned =>
      rw [hexec]
      exact ha.returned_exec _
    -- the new channel is none of those that are in use
    case slots =>
      rw [hexec]
      dsimp only
      have hslots := List.nodup_cons.2
        ⟨fun hmem => Nat.lt_irrefl _ (ha.lt_channels hmem), ha.slots⟩
      rw [List.append_assoc] at hslots
      rw [List.map_append, List.append_assoc, List.append_assoc]
      exact (List.perm_middle.nodup_iff).2 hslots

/-- The job enters the queue, and its submitter waits. -/
theorem Accounted.push {h : WorkerHistory} (ha : h.Accounted) (job : Job) :
    (h.exec (.push job)).Accounted := by
  by_cases hentering : job ∈ h.worker.entering
  · have hexec : (h.exec (.push job)).worker = { h.worker with
        entering := h.worker.entering.erase job
        queue := h.worker.queue ++ [job]
        waiting := h.worker.waiting ++ [job.respond] } := if_pos hentering
    have hnumbered : (h.exec (.push job)).numbered = h.numbered := List.append_nil _
    have hjob : job ∈ h.numbered :=
      ha.jobs job (List.mem_append_left _ (List.mem_append_left _ hentering))
    constructor
    case sound => exact ha.sound_exec _
    case numbered => exact hnumbered ▸ ha.numbered
    case issued =>
      rw [hnumbered, hexec]
      exact ha.issued
    case jobs =>
      rw [hnumbered, hexec]
      intro other hother
      have hcases : other ∈ h.worker.jobs ∨ other = job := by
        simp only [ModelWorker.jobs, List.mem_append, List.mem_singleton] at hother ⊢
        rcases hother with (hother | hother | rfl) | hother
        · exact Or.inl (Or.inl (Or.inl (List.mem_of_mem_erase hother)))
        · exact Or.inl (Or.inl (Or.inr hother))
        · exact Or.inr rfl
        · exact Or.inl (Or.inr hother)
      exact hcases.elim (ha.jobs other) (fun heq => heq ▸ hjob)
    case waiting =>
      rw [hnumbered, hexec]
      intro channel hchannel
      rcases List.mem_append.1 hchannel with hchannel | hchannel
      · exact ha.waiting channel hchannel
      · exact ⟨job, hjob, (List.mem_singleton.1 hchannel).symm⟩
    case replies =>
      rw [hnumbered, hexec]
      exact fun reply hreply =>
        ⟨(ha.replies reply hreply).1, (ha.replies reply hreply).2.exec _⟩
    case returned =>
      rw [hexec]
      exact ha.returned_exec _
    -- the job moves from those that enter to those that wait
    case slots =>
      rw [hexec]
      have hperm : (h.worker.entering.map Job.respond ++ h.worker.waiting).Perm
          ((h.worker.entering.erase job).map Job.respond ++
            (h.worker.waiting ++ [job.respond])) := by
        have herase := (List.perm_cons_erase hentering).map Job.respond
        refine (herase.append_right _).trans ?_
        rw [← List.append_assoc]
        exact (List.perm_append_singleton _ _).symm
      exact ((hperm.append_right _).nodup_iff).1 ha.slots
  · exact ha.unchanged rfl (if_neg hentering)

/-- A waiting submission returns. -/
theorem Accounted.finish {h : WorkerHistory} (ha : h.Accounted) {step : ModelWorkerStep}
    {channel : ℕ} {reply : JobResult} (hnumbers : h.worker.numbersJob step = none)
    (hexec : h.worker.exec step = h.worker.finish channel reply)
    (hwait : channel ∈ h.worker.waiting)
    (hreply : ∃ job ∈ h.numbered, job.respond = channel ∧
      (reply = .error workerGone ∨ h.Answered job reply)) : (h.exec step).Accounted := by
  have hworker : (h.exec step).worker = h.worker.finish channel reply := hexec
  have hnumbered : (h.exec step).numbered = h.numbered := by
    unfold WorkerHistory.exec
    rw [hnumbers, Option.toList_none, List.append_nil]
  constructor
  case sound => exact ha.sound_exec _
  case numbered => exact hnumbered ▸ ha.numbered
  case issued =>
    rw [hnumbered, hworker]
    exact ha.issued
  case jobs =>
    rw [hnumbered, hworker]
    exact ha.jobs
  case waiting =>
    rw [hnumbered, hworker]
    exact fun other hother => ha.waiting other (List.mem_filter.1 hother).1
  case replies =>
    rw [hnumbered, hworker]
    exact fun reply hreply => ⟨(ha.replies reply hreply).1, (ha.replies reply hreply).2.exec _⟩
  case returned =>
    rw [hworker]
    intro answer hanswer
    rcases List.mem_append.1 hanswer with hold | hnew
    · exact ha.returned_exec step answer hold
    · rw [List.mem_singleton.1 hnew, hnumbered]
      obtain ⟨job, hjob, hrespond, hgone⟩ := hreply
      exact ⟨job, hjob, hrespond, hgone.imp_right (fun h => h.exec step)⟩
  case slots =>
    rw [hworker]
    have hnodup : h.worker.waiting.Nodup := ha.slots.of_append_left.of_append_right
    -- the channel moves from the waiting ones to the returned ones
    have hperm : (h.worker.waiting ++ h.worker.returned.map Prod.fst).Perm
        (h.worker.waiting.filter (fun other => decide (other ≠ channel)) ++
          (h.worker.returned ++ [(channel, reply)]).map Prod.fst) := by
      have herase := (List.perm_cons_erase hwait).append_right (h.worker.returned.map Prod.fst)
      have hfilter : h.worker.waiting.erase channel
          = h.worker.waiting.filter (fun other => decide (other ≠ channel)) := by
        rw [hnodup.erase_eq_filter]
        refine List.filter_congr (fun other _ => ?_)
        rw [bne, decide_not]
        rfl
      rw [hfilter] at herase
      rw [List.map_append, ← List.append_assoc]
      exact herase.trans (List.perm_append_singleton _ _).symm
    have hslots := ha.slots
    rw [List.append_assoc] at hslots
    unfold ModelWorker.finish
    dsimp only
    rw [List.append_assoc]
    exact ((hperm.append_left _).nodup_iff).1 hslots

/-- The thread ends, and the job in hand is dropped. -/
theorem Accounted.endThread {h : WorkerHistory} (ha : h.Accounted) {step : ModelWorkerStep}
    (hnumbers : h.worker.numbersJob step = none)
    (hexec : h.worker.exec step = h.worker.endThread) : (h.exec step).Accounted := by
  refine ha.inside hnumbers ?_ ?_ ?_ ?_ ?_ ?_
  all_goals rw [hexec]
  any_goals rfl
  · intro job hjob
    simp only [ModelWorker.jobs, ModelWorker.endThread, ThreadPhase.hand, List.append_nil] at hjob
    exact List.mem_append_left _ hjob
  · exact fun reply hreply => Or.inl hreply

/-- The job in hand is answered. -/
theorem Accounted.respond {h : WorkerHistory} (ha : h.Accounted) {step : ModelWorkerStep}
    {job : Job} {reply : JobResult} (hnumbers : h.worker.numbersJob step = none)
    (hphase : h.worker.phase = .inHand job) (hexec : h.worker.exec step = h.worker.respond job reply)
    (hanswered : (h.exec step).Answered job reply) : (h.exec step).Accounted := by
  refine ha.inside hnumbers ?_ ?_ ?_ ?_ ?_ ?_
  all_goals rw [hexec]
  any_goals rfl
  · intro other hother
    simp only [ModelWorker.jobs, ModelWorker.respond, ThreadPhase.hand, List.append_nil] at hother
    exact List.mem_append_left _ hother
  · intro other hother
    rcases List.mem_append.1 hother with hold | hnew
    · exact Or.inl hold
    · rw [List.mem_singleton.1 hnew]
      refine Or.inr ⟨?_, hanswered⟩
      rw [ModelWorker.jobs, hphase]
      exact List.mem_append_right _ List.mem_cons_self

theorem Accounted.modelChanged {h : WorkerHistory} (ha : h.Accounted) {step : ModelWorkerStep}
    (model : Bool) (hnumbers : h.worker.numbersJob step = none)
    (hexec : h.worker.exec step = { h.worker with model := model }) : (h.exec step).Accounted := by
  refine ha.inside hnumbers ?_ ?_ ?_ ?_ ?_ ?_
  all_goals rw [hexec]
  · exact List.Subset.refl _
  · exact fun reply hreply => Or.inl hreply

theorem Accounted.load {h : WorkerHistory} (ha : h.Accounted) (outcome : Outcome Unit) :
    (h.exec (.load outcome)).Accounted := by
  by_cases henabled : ∃ job, h.worker.phase = .inHand job ∧ h.worker.model = false
  · obtain ⟨job, hphase, hmodel⟩ := henabled
    cases outcome with
    | panicked =>
        exact ha.endThread rfl (by simp only [ModelWorker.exec, hphase, hmodel])
    | returned result =>
        cases result with
        | ok _ =>
            exact ha.modelChanged true rfl
              (by simp only [ModelWorker.exec, hphase, hmodel])
        | error error =>
            refine ha.respond rfl hphase (by simp only [ModelWorker.exec, hphase, hmodel])
              (.notLoaded error (List.mem_append_right _ ?_))
            simp [ModelWorker.failsToLoad, hphase, hmodel]
  · refine ha.unchanged rfl ?_
    unfold ModelWorker.exec
    dsimp only
    split
    · next job hphase hmodel => exact absurd ⟨job, hphase, hmodel⟩ henabled
    · rfl

theorem Accounted.embed {h : WorkerHistory} (ha : h.Accounted) (embedder : LoadedEmbedder) :
    (h.exec (.embed embedder)).Accounted := by
  by_cases henabled : ∃ job, h.worker.phase = .inHand job ∧ h.worker.model = true
  · obtain ⟨job, hphase, hmodel⟩ := henabled
    cases hrun : embedder.run job.kind with
    | panicked =>
        exact ha.endThread rfl (by simp only [ModelWorker.exec, hphase, hmodel, hrun])
    | returned reply =>
        refine ha.respond rfl hphase (by simp only [ModelWorker.exec, hphase, hmodel, hrun])
          (.embedded embedder reply (List.mem_append_right _ ?_) hrun)
        simp [ModelWorker.callsModel, hphase, hmodel]
  · refine ha.unchanged rfl ?_
    unfold ModelWorker.exec
    dsimp only
    split
    · next job hphase hmodel => exact absurd ⟨job, hphase, hmodel⟩ henabled
    · rfl

/-- A reply is received on the channel of the job it answers. -/
theorem Accounted.receive {h : WorkerHistory} (ha : h.Accounted) (channel : ℕ) :
    (h.exec (.receive channel)).Accounted := by
  cases hfind : h.worker.replies.find? (fun reply => reply.channel == channel) with
  | none => exact ha.unchanged rfl (by simp only [ModelWorker.exec, hfind])
  | some reply =>
      by_cases hwait : channel ∈ h.worker.waiting
      · have hreply := List.mem_of_find?_eq_some hfind
        have hchannel : reply.channel = channel := by simpa using List.find?_some hfind
        obtain ⟨hjob, hanswered⟩ := ha.replies reply hreply
        refine ha.finish rfl (by simp only [ModelWorker.exec, hfind, if_pos hwait]) hwait
          ⟨reply.job, hjob, ?_, Or.inr hanswered⟩
        exact (ha.sound.own reply hreply).symm.trans hchannel
      · exact ha.unchanged rfl (by simp only [ModelWorker.exec, hfind, if_neg hwait])

theorem Accounted.hangUp {h : WorkerHistory} (ha : h.Accounted) (channel : ℕ) :
    (h.exec (.hangUp channel)).Accounted := by
  by_cases hgone : channel ∈ h.worker.waiting ∧ channel ∉ h.worker.jobs.map Job.respond ∧
      channel ∉ h.worker.replies.map Reply.channel
  · obtain ⟨job, hjob, hrespond⟩ := ha.waiting channel hgone.1
    exact ha.finish rfl (if_pos hgone) hgone.1 ⟨job, hjob, hrespond, Or.inl rfl⟩
  · exact ha.unchanged rfl (if_neg hgone)

/-- **Every step keeps the account.** -/
theorem Accounted.exec {h : WorkerHistory} (ha : h.Accounted) (step : ModelWorkerStep) :
    (h.exec step).Accounted := by
  cases step with
  | number priority kind => exact ha.number priority kind
  | push job => exact ha.push job
  | load outcome => exact ha.load outcome
  | embed embedder => exact ha.embed embedder
  | receive channel => exact ha.receive channel
  | hangUp channel => exact ha.hangUp channel
  -- the job goes from the queue into the hand, unless the thread ends first
  | take job =>
      rcases h.worker.exec_take job with ⟨-, -, hqueue, -, hexec⟩ | ⟨-, hexec | hexec⟩
      · refine ha.inside rfl ?_ ?_ ?_ ?_ ?_ ?_
        all_goals rw [hexec]
        · intro other hother
          simp only [ModelWorker.jobs, ThreadPhase.hand, List.mem_append, List.mem_singleton]
            at hother ⊢
          rcases hother with (hother | hother) | rfl
          · exact Or.inl (Or.inl hother)
          · exact Or.inl (Or.inr (List.mem_of_mem_erase hother))
          · exact Or.inl (Or.inr hqueue)
        · exact fun reply hreply => Or.inl hreply
      · exact ha.unchanged rfl hexec
      · exact ha.endThread rfl hexec
  | unload =>
      by_cases hidle : h.worker.phase = .idle ∧ h.worker.queue = []
      · exact ha.modelChanged false rfl (if_pos hidle)
      · exact ha.unchanged rfl (if_neg hidle)
  | dropHandle =>
      by_cases hnobody : h.worker.entering = [] ∧ h.worker.waiting = []
      · have hexec : h.worker.exec .dropHandle = { h.worker with shutdown := true } :=
          if_pos hnobody
        refine ha.inside rfl ?_ ?_ ?_ ?_ ?_ ?_
        all_goals rw [hexec]
        · exact List.Subset.refl _
        · exact fun reply hreply => Or.inl hreply
      · exact ha.unchanged rfl (if_neg hnobody)

/-! ## The answers -/

/-- The reply a submission returned is about its job. -/
theorem Accounted.answer {h : WorkerHistory} (ha : h.Accounted) {job : Job} (hjob : job ∈ h.numbered)
    {reply : JobResult} (hreturned : (job.respond, reply) ∈ h.worker.returned) :
    reply = .error workerGone ∨ h.Answered job reply := by
  obtain ⟨other, hother, hrespond, hgone⟩ := ha.returned _ hreturned
  obtain rfl : other = job := List.inj_on_of_nodup_map ha.numbered hother hjob hrespond
  exact hgone

theorem Accounted.answersOwn {h : WorkerHistory} (ha : h.Accounted) : h.AnswersOwn where
  once := ha.slots.of_append_right
  channels := by
    refine ⟨ha.numbered, fun answer hanswer => ?_⟩
    obtain ⟨job, hjob, hrespond, -⟩ := ha.returned answer hanswer
    exact ⟨job, hjob, hrespond⟩
  documents job hjob texts hkind reply hreturned := by
    rcases ha.answer hjob hreturned with rfl | hanswered
    · exact Or.inl (Or.inl rfl)
    · cases hanswered with
      | notLoaded error hload => exact Or.inl (Or.inr ⟨error, hload, rfl⟩)
      | embedded embedder _ hcall hrun =>
          rw [hkind] at hrun
          exact Or.inr ⟨embedder, hcall, hrun⟩
  queries job hjob text hkind reply hreturned := by
    rcases ha.answer hjob hreturned with rfl | hanswered
    · exact Or.inl (Or.inl rfl)
    · cases hanswered with
      | notLoaded error hload => exact Or.inl (Or.inr ⟨error, hload, rfl⟩)
      | embedded embedder _ hcall hrun =>
          rw [hkind] at hrun
          exact Or.inr ⟨embedder, hcall, embedQuery_of_run hrun⟩

end WorkerHistory

/-- **Nobody gets another's answer.** However submissions and the worker are interleaved, whatever
    the loader and the model do: a submission returns once at most, and with what the model gave
    when it was called for that submission's own texts or query, unless the model did not load for
    it or the thread was gone. -/
theorem own_answers (steps : List ModelWorkerStep) :
    AllStates WorkerHistory.exec WorkerHistory.AnswersOwn .spawned steps :=
  (AllStates.of_step (fun _ step ha => ha.exec step) WorkerHistory.accounted_spawned).imp
    (fun _ ha => ha.answersOwn)

end Fndr
