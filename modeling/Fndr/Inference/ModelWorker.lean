import Fndr.Library.Runs
import Fndr.Store.LanceWriter
import Mathlib.Data.List.Nodup

set_option autoImplicit false

/-! # The model worker

`ModelWorkerHandle::submit` and `run_worker` of `model_worker.rs` as one transition system: the
submitters, the shared queue, the worker thread and the reply channels. The loader and the embedder
may return, fail or panic, and a panic ends the thread. A section under the queue's lock is one
step, and a step that is not enabled changes nothing.

The sender of a reply lives in its job. The job in hand dies with the thread, so its submitter
learns that the worker is gone. The queue belongs to the handle and outlives the thread, so a job in
it keeps its submitter waiting for good. Nobody is stranded exactly in the runs where the thread
panics with nothing queued and nothing is queued afterwards (`repliesAndReleases_iff`). -/

namespace Fndr

open RustStd Runs

/-! ## Jobs -/

/-- The urgency of a job, the least urgent first. -/
inductive Priority
  | backfill
  | review
  | synthesis
  | interactive
  deriving DecidableEq

/-- The derived order of the priorities. -/
def Priority.rank : Priority → ℕ
  | .backfill => 0
  | .review => 1
  | .synthesis => 2
  | .interactive => 3

/-- What is to be embedded. -/
inductive WorkKind
  | documents (texts : List Str)
  | query (text : Str)
  deriving DecidableEq

/-- What a job returns: its vectors, or why there are none. -/
abbrev JobResult := Except EmbedError (List (List F32))

/-- `respond` is the channel of the reply, whose sender the job holds. -/
structure Job where
  priority : Priority
  seq : ℕ
  kind : WorkKind
  respond : ℕ
  deriving DecidableEq

/-- `Job::cmp`: higher priorities first, then earlier submissions. -/
def Job.Le (a b : Job) : Prop :=
  a.priority.rank < b.priority.rank ∨ (a.priority.rank = b.priority.rank ∧ b.seq ≤ a.seq)

instance : DecidableRel Job.Le := fun _ _ => inferInstanceAs (Decidable (_ ∨ _))

/-! ## The system -/

/-- How a call of the loader or of the embedder ends. -/
inductive Outcome (α : Type)
  | returned (result : Except EmbedError α)
  | panicked

/-- What the loaded model does when it is called next. -/
structure LoadedEmbedder where
  embedDocuments : List Str → Outcome (List (List F32))
  embedQuery : Str → Outcome (List F32)

/-- The loaded model on a job; a query gives a list of one vector. -/
def LoadedEmbedder.run (embedder : LoadedEmbedder) : WorkKind → Outcome (List (List F32))
  | .documents texts => embedder.embedDocuments texts
  | .query text =>
      match embedder.embedQuery text with
      | .returned result => .returned (result.map (fun vector => [vector]))
      | .panicked => .panicked

/-- Where the worker thread is. -/
inductive ThreadPhase
  /-- About to lock the queue, or waiting on the condition variable. -/
  | idle
  | inHand (job : Job)
  | ended
  deriving DecidableEq

/-- The job the thread has taken and not answered. -/
def ThreadPhase.hand : ThreadPhase → List Job
  | .inHand job => [job]
  | _ => []

/-- A message on a reply channel, with the job it answers. -/
structure Reply where
  channel : ℕ
  job : Job
  result : JobResult

/-- The state behind the lock, the thread and its model, the callers on their way in, and the
    channels of their replies. -/
structure ModelWorker where
  shutdown : Bool
  queue : List Job
  phase : ThreadPhase
  /-- A model is loaded. -/
  model : Bool
  /-- The next sequence number, and the next reply channel. -/
  seq : ℕ
  channels : ℕ
  /-- Jobs that are numbered and not pushed yet. -/
  entering : List Job
  /-- Channels on which a submitter waits. -/
  waiting : List ℕ
  /-- The messages sent on reply channels. -/
  replies : List Reply
  /-- What submissions returned. -/
  returned : List (ℕ × JobResult)

/-- The state `spawn` leaves. -/
def ModelWorker.spawned : ModelWorker where
  shutdown := false
  queue := []
  phase := .idle
  model := false
  seq := 0
  channels := 0
  entering := []
  waiting := []
  replies := []
  returned := []

/-- A step of a caller or of the thread. -/
inductive ModelWorkerStep
  | number (priority : Priority) (kind : WorkKind)
  | push (job : Job)
  | take (job : Job)
  | unload
  | load (outcome : Outcome Unit)
  | embed (embedder : LoadedEmbedder)
  | receive (channel : ℕ)
  | hangUp (channel : ℕ)
  | dropHandle

/-- The jobs there are; each holds the sender of its reply. -/
def ModelWorker.jobs (worker : ModelWorker) : List Job :=
  worker.entering ++ worker.queue ++ worker.phase.hand

/-- Somebody can still answer on the channel. -/
def ModelWorker.SenderAlive (worker : ModelWorker) (channel : ℕ) : Prop :=
  channel ∈ worker.jobs.map Job.respond

/-- The worker answers the job in hand and goes back to the queue. -/
def ModelWorker.respond (worker : ModelWorker) (job : Job) (result : JobResult) : ModelWorker :=
  { worker with
    phase := .idle
    replies := worker.replies ++ [⟨job.respond, job, result⟩] }

/-- The thread ends. The model and the job in hand are dropped, and with the job its sender. -/
def ModelWorker.endThread (worker : ModelWorker) : ModelWorker :=
  { worker with phase := .ended, model := false }

/-- What a caller gets when nobody can. -/
def workerGone : EmbedError := .failed "worker thread gone".toList

/-- A submission returns. -/
def ModelWorker.finish (worker : ModelWorker) (channel : ℕ) (result : JobResult) : ModelWorker :=
  { worker with
    waiting := worker.waiting.filter (fun other => decide (other ≠ channel))
    returned := worker.returned ++ [(channel, result)] }

/-- The state after a step. A step that cannot happen leaves it as it is. -/
def ModelWorker.exec (worker : ModelWorker) : ModelWorkerStep → ModelWorker
  | .number priority kind =>
      if worker.shutdown then worker
      else
        { worker with
          seq := (worker.seq + 1) % 2 ^ 64
          channels := worker.channels + 1
          entering := worker.entering ++ [⟨priority, worker.seq, kind, worker.channels⟩] }
  | .push job =>
      if job ∈ worker.entering then
        { worker with
          entering := worker.entering.erase job
          queue := worker.queue ++ [job]
          waiting := worker.waiting ++ [job.respond] }
      else worker
  | .take job =>
      match worker.phase with
      | .idle =>
          if worker.shutdown then worker.endThread
          -- the heap pops a greatest job
          else if job ∈ worker.queue ∧ ∀ other ∈ worker.queue, other.Le job then
            { worker with queue := worker.queue.erase job, phase := .inHand job }
          else worker
      | _ => worker
  | .unload =>
      if worker.phase = .idle ∧ worker.queue = [] then { worker with model := false } else worker
  | .load outcome =>
      match worker.phase, worker.model with
      | .inHand job, false =>
          match outcome with
          | .returned (.ok ()) => { worker with model := true }
          | .returned (.error error) => worker.respond job (.error error)
          | .panicked => worker.endThread
      | _, _ => worker
  | .embed embedder =>
      match worker.phase, worker.model with
      | .inHand job, true =>
          match embedder.run job.kind with
          | .returned result => worker.respond job result
          | .panicked => worker.endThread
      | _, _ => worker
  | .receive channel =>
      match worker.replies.find? (fun reply => reply.channel == channel) with
      | some reply =>
          if channel ∈ worker.waiting then worker.finish channel reply.result else worker
      | none => worker
  | .hangUp channel =>
      if channel ∈ worker.waiting ∧ channel ∉ worker.jobs.map Job.respond ∧
          channel ∉ worker.replies.map Reply.channel then
        worker.finish channel (.error workerGone)
      else worker
  | .dropHandle =>
      -- a submitter borrows the handle for the whole of its call
      if worker.entering = [] ∧ worker.waiting = [] then { worker with shutdown := true }
      else worker

/-- Every job has one reply at most, on its own channel, and once the thread has ended nobody waits
    on a channel whose sender is alive. -/
structure ModelWorker.RepliesAndReleases (worker : ModelWorker) : Prop where
  oneReply : (worker.replies.map Reply.channel).Nodup
  ownChannel : ∀ reply ∈ worker.replies, reply.channel = reply.job.respond
  notStranded : worker.phase = .ended → ∀ channel ∈ worker.waiting, ¬ worker.SenderAlive channel

/-- The loader or the embedder does not panic while a job is queued, and no job is queued once the
    thread has ended. -/
def ModelWorker.LeavesNobody (worker : ModelWorker) : ModelWorkerStep → Prop
  | .push job => job ∈ worker.entering → worker.phase ≠ .ended
  | .load outcome => ∀ job, worker.phase = .inHand job → worker.model = false →
      outcome = .panicked → worker.queue = []
  | .embed embedder => ∀ job, worker.phase = .inHand job → worker.model = true →
      embedder.run job.kind = .panicked → worker.queue = []
  | _ => True

/-! ## What a step does -/

/-- What becomes of a worker in one step. -/
inductive ModelWorker.Effect (worker : ModelWorker) : ModelWorkerStep → ModelWorker → Prop
  | unchanged (step : ModelWorkerStep) : Effect worker step worker
  | numbered (priority : Priority) (kind : WorkKind) (hopen : worker.shutdown = false) :
      Effect worker (.number priority kind) { worker with
        seq := (worker.seq + 1) % 2 ^ 64
        channels := worker.channels + 1
        entering := worker.entering ++ [⟨priority, worker.seq, kind, worker.channels⟩] }
  | pushed (job : Job) (hentering : job ∈ worker.entering) :
      Effect worker (.push job) { worker with
        entering := worker.entering.erase job
        queue := worker.queue ++ [job]
        waiting := worker.waiting ++ [job.respond] }
  | shutDown (job : Job) (hshutdown : worker.shutdown = true) :
      Effect worker (.take job) worker.endThread
  | taken (job : Job) (hidle : worker.phase = .idle) (hqueue : job ∈ worker.queue) :
      Effect worker (.take job) { worker with
        queue := worker.queue.erase job
        phase := .inHand job }
  | modelChanged (step : ModelWorkerStep) (model : Bool) :
      Effect worker step { worker with model := model }
  | answered (step : ModelWorkerStep) (job : Job) (result : JobResult)
      (hphase : worker.phase = .inHand job) : Effect worker step (worker.respond job result)
  | loadPanicked (job : Job) (hphase : worker.phase = .inHand job) (hmodel : worker.model = false) :
      Effect worker (.load .panicked) worker.endThread
  | embedPanicked (embedder : LoadedEmbedder) (job : Job) (hphase : worker.phase = .inHand job)
      (hmodel : worker.model = true) (hpanic : embedder.run job.kind = .panicked) :
      Effect worker (.embed embedder) worker.endThread
  | received (reply : Reply) (hreply : reply ∈ worker.replies) :
      Effect worker (.receive reply.channel) (worker.finish reply.channel reply.result)
  | hungUp (channel : ℕ) (hgone : channel ∉ worker.jobs.map Job.respond) :
      Effect worker (.hangUp channel) (worker.finish channel (.error workerGone))
  | handleDropped (hnobody : worker.entering = [] ∧ worker.waiting = []) :
      Effect worker .dropHandle { worker with shutdown := true }

theorem ModelWorker.exec_effect (worker : ModelWorker) (step : ModelWorkerStep) :
    worker.Effect step (worker.exec step) := by
  unfold ModelWorker.exec
  cases step with
  | number priority kind =>
      dsimp only
      split_ifs with hopen
      · exact .unchanged _
      · exact .numbered _ _ (eq_false_of_ne_true hopen)
  | push job =>
      dsimp only
      split_ifs with hentering
      · exact .pushed _ hentering
      · exact .unchanged _
  -- the flag is read before the queue, so a shutdown wins over jobs that wait
  | take job =>
      dsimp only
      split
      · next hidle =>
        split_ifs with hshutdown hpop
        · exact .shutDown _ hshutdown
        · exact .taken _ hidle hpop.1
        · exact .unchanged _
      · exact .unchanged _
  | unload =>
      dsimp only
      split_ifs
      · exact .modelChanged _ _
      · exact .unchanged _
  -- three ends: the model is there, the job gets the error, or the thread is gone
  | load outcome =>
      dsimp only
      split
      · next job hphase hmodel =>
        split
        · exact .modelChanged _ _
        · exact .answered _ _ _ hphase
        · exact .loadPanicked _ hphase hmodel
      · exact .unchanged _
  | embed embedder =>
      dsimp only
      split
      · next job hphase hmodel =>
        split
        · exact .answered _ _ _ hphase
        · next hpanic => exact .embedPanicked _ _ hphase hmodel hpanic
      · exact .unchanged _
  | receive channel =>
      dsimp only
      split
      · next reply hreply =>
        split_ifs
        · have hchannel : reply.channel = channel := by simpa using List.find?_some hreply
          exact hchannel ▸ .received _ (List.mem_of_find?_eq_some hreply)
        · exact .unchanged _
      · exact .unchanged _
  | hangUp channel =>
      dsimp only
      split_ifs with hgone
      · exact .hungUp _ hgone.2.1
      · exact .unchanged _
  | dropHandle =>
      dsimp only
      split_ifs with hnobody
      · exact .handleDropped hnobody
      · exact .unchanged _

/-! ## Channels have one owner -/

/-- The channels that jobs hold, and those that were answered. -/
def ModelWorker.tokens (worker : ModelWorker) : List ℕ :=
  worker.jobs.map Job.respond ++ worker.replies.map Reply.channel

/-- A channel is held by one job or was answered, and the submitter of a queued job waits. -/
structure ModelWorker.Sound (worker : ModelWorker) : Prop where
  tokens : worker.tokens.Nodup
  issued : ∀ channel ∈ worker.tokens ++ worker.waiting, channel < worker.channels
  own : ∀ reply ∈ worker.replies, reply.channel = reply.job.respond
  waits : ∀ job ∈ worker.queue ++ worker.phase.hand, job.respond ∈ worker.waiting
  apart : ∀ job ∈ worker.entering, job.respond ∉ worker.waiting
  dropped : worker.shutdown = true → worker.entering = [] ∧ worker.waiting = []

theorem ModelWorker.sound_spawned : spawned.Sound :=
  ⟨List.nodup_nil, nofun, nofun, nofun, nofun, nofun⟩

theorem ModelWorker.count_tokens (worker : ModelWorker) (channel : ℕ) :
    worker.tokens.count channel = (worker.entering.map Job.respond).count channel +
      (worker.queue.map Job.respond).count channel +
      (worker.phase.hand.map Job.respond).count channel +
      (worker.replies.map Reply.channel).count channel := by
  simp only [tokens, jobs, List.map_append, List.count_append]

/-- Taking a job out of a list takes one use of its channel. -/
theorem count_map_erase {jobs : List Job} {job : Job} (h : job ∈ jobs) (channel : ℕ) :
    ((jobs.erase job).map Job.respond).count channel + [job.respond].count channel
      = (jobs.map Job.respond).count channel := by
  have hcount := ((List.perm_cons_erase h).map Job.respond).count_eq channel
  rw [hcount]
  simp only [List.map_cons, List.count_cons, List.count_nil, Nat.zero_add]

/-- A step that uses no channel anew. -/
theorem ModelWorker.Sound.of_count {worker after : ModelWorker} (h : worker.Sound)
    (hcount : ∀ channel, after.tokens.count channel ≤ worker.tokens.count channel)
    (hchannels : after.channels = worker.channels)
    (hwaiting : ∀ channel ∈ after.waiting, channel ∈ worker.tokens ++ worker.waiting)
    (hown : ∀ reply ∈ after.replies, reply.channel = reply.job.respond)
    (hwaits : ∀ job ∈ after.queue ++ after.phase.hand, job.respond ∈ after.waiting)
    (hapart : ∀ job ∈ after.entering, job.respond ∉ after.waiting)
    (hdropped : after.shutdown = true → after.entering = [] ∧ after.waiting = []) : after.Sound where
  tokens := List.nodup_iff_count_le_one.2 (fun channel =>
    (hcount channel).trans (List.nodup_iff_count_le_one.1 h.tokens channel))
  issued channel hchannel := by
    rw [hchannels]
    rcases List.mem_append.1 hchannel with htoken | hwait
    · have hpos := (List.count_pos_iff.2 htoken).trans_le (hcount channel)
      exact h.issued channel (List.mem_append_left _ (List.count_pos_iff.1 hpos))
    · exact h.issued channel (hwaiting channel hwait)
  own := hown
  waits := hwaits
  apart := hapart
  dropped := hdropped

theorem ModelWorker.tokens_number (worker : ModelWorker) (job : Job) (seq channels : ℕ) :
    ({ worker with
        seq := seq
        channels := channels
        entering := worker.entering ++ [job] } : ModelWorker).tokens.Perm
      (job.respond :: worker.tokens) := by
  refine List.perm_iff_count.2 (fun channel => ?_)
  rw [List.count_cons, count_tokens, count_tokens, List.map_append, List.count_append,
    List.map_singleton, List.count_singleton]
  dsimp only
  omega

/-- A job that is numbered takes a channel of its own. -/
theorem ModelWorker.Sound.numbered {worker : ModelWorker} (h : worker.Sound)
    (hopen : worker.shutdown = false) {job : Job} (hjob : job.respond = worker.channels) (seq : ℕ) :
    Sound { worker with
      seq := seq
      channels := worker.channels + 1
      entering := worker.entering ++ [job] } := by
  have hnew : job.respond ∉ worker.tokens ++ worker.waiting :=
    fun hused => (h.issued _ hused).ne hjob
  have hperm := worker.tokens_number job seq (worker.channels + 1)
  refine ⟨?_, fun channel hchannel => ?_, h.own, h.waits, fun other hother hwait => ?_,
    fun hshutdown => nomatch hopen.symm.trans hshutdown⟩
  · exact hperm.nodup_iff.2
      (List.nodup_cons.2 ⟨fun hused => hnew (List.mem_append_left _ hused), h.tokens⟩)
  · rcases List.mem_append.1 hchannel with htoken | hwait
    · rcases List.mem_cons.1 (hperm.mem_iff.1 htoken) with rfl | hold
      · exact hjob ▸ Nat.lt_succ_self _
      · exact Nat.lt_succ_of_lt (h.issued channel (List.mem_append_left _ hold))
    · exact Nat.lt_succ_of_lt (h.issued channel (List.mem_append_right _ hwait))
  · rcases List.mem_append.1 hother with hold | hadded
    · exact h.apart other hold hwait
    · rw [List.mem_singleton.1 hadded] at hwait
      exact hnew (List.mem_append_right _ hwait)

/-- A pushed job leaves its submitter waiting. -/
theorem ModelWorker.Sound.pushed {worker : ModelWorker} (h : worker.Sound) {job : Job}
    (hentering : job ∈ worker.entering) :
    Sound { worker with
      entering := worker.entering.erase job
      queue := worker.queue ++ [job]
      waiting := worker.waiting ++ [job.respond] } := by
  -- the jobs that enter have channels of their own
  have hdistinct : (worker.entering.map Job.respond).Nodup :=
    List.nodup_iff_count_le_one.2 (fun channel => by
      have hcount := List.nodup_iff_count_le_one.1 h.tokens channel
      rw [count_tokens] at hcount
      omega)
  refine h.of_count (fun channel => ?_) rfl (fun channel hchannel => ?_) h.own
    (fun other hother => ?_) (fun other hother hwait => ?_) (fun hshutdown => ?_)
  · have herase := count_map_erase hentering channel
    rw [count_tokens, count_tokens]
    simp only [List.map_append, List.map_cons, List.map_nil, List.count_append]
    omega
  · rcases List.mem_append.1 hchannel with hold | hnew
    · exact List.mem_append_right _ hold
    · rw [List.mem_singleton.1 hnew, ModelWorker.tokens, ModelWorker.jobs]
      simp only [List.map_append, List.mem_append]
      exact Or.inl (Or.inl (Or.inl (Or.inl (List.mem_map_of_mem hentering))))
  · simp only [List.mem_append, List.mem_singleton] at hother ⊢
    rcases hother with (hold | rfl) | hhand
    · exact Or.inl (h.waits other (List.mem_append_left _ hold))
    · exact Or.inr rfl
    · exact Or.inl (h.waits other (List.mem_append_right _ hhand))
  · rcases List.mem_append.1 hwait with hold | hnew
    · exact h.apart other (List.mem_of_mem_erase hother) hold
    · -- two entering jobs on one channel
      have hsplit := ((List.perm_cons_erase hentering).map Job.respond).nodup_iff.1 hdistinct
      exact (List.nodup_cons.1 hsplit).1 (List.mem_map.2 ⟨other, hother, List.mem_singleton.1 hnew⟩)
  · rw [(h.dropped hshutdown).1] at hentering
    cases hentering

theorem ModelWorker.Sound.endThread {worker : ModelWorker} (h : worker.Sound) :
    worker.endThread.Sound := by
  refine h.of_count (fun channel => ?_) rfl (fun channel hwait => List.mem_append_right _ hwait) h.own
    (fun job hjob => ?_) h.apart h.dropped
  · rw [count_tokens, count_tokens]
    simp only [ModelWorker.endThread, ThreadPhase.hand, List.map_nil, List.count_nil]
    omega
  · rcases List.mem_append.1 hjob with hqueue | hhand
    · exact h.waits job (List.mem_append_left _ hqueue)
    · cases hhand

/-- The greatest job goes from the queue into the hand of the worker. -/
theorem ModelWorker.Sound.taken {worker : ModelWorker} (h : worker.Sound) {job : Job}
    (hidle : worker.phase = .idle) (hqueue : job ∈ worker.queue) :
    Sound { worker with queue := worker.queue.erase job, phase := .inHand job } := by
  refine h.of_count (fun channel => ?_) rfl (fun channel hwait => List.mem_append_right _ hwait)
    h.own (fun other hother => ?_) h.apart h.dropped
  · have herase := count_map_erase hqueue channel
    rw [count_tokens, count_tokens, hidle]
    simp only [ThreadPhase.hand, List.map_cons, List.map_nil, List.count_nil]
    omega
  · refine h.waits other (List.mem_append_left _ ?_)
    rcases List.mem_append.1 hother with hold | hhand
    · exact List.mem_of_mem_erase hold
    · exact List.mem_singleton.1 hhand ▸ hqueue

/-- The sender of the job in hand becomes the reply. -/
theorem ModelWorker.Sound.respond {worker : ModelWorker} (h : worker.Sound) {job : Job}
    (hphase : worker.phase = .inHand job) (result : JobResult) : (worker.respond job result).Sound := by
  refine h.of_count (fun channel => ?_) rfl (fun channel hwait => List.mem_append_right _ hwait)
    (fun reply hreply => ?_) (fun other hother => ?_) h.apart h.dropped
  · rw [count_tokens, count_tokens, hphase]
    simp only [ModelWorker.respond, ThreadPhase.hand, List.map_append, List.map_cons, List.map_nil,
      List.count_append, List.count_nil]
    omega
  · rcases List.mem_append.1 hreply with hold | hnew
    · exact h.own reply hold
    · rw [List.mem_singleton.1 hnew]
  · rcases List.mem_append.1 hother with hqueue | hhand
    · exact h.waits other (List.mem_append_left _ hqueue)
    · cases hhand

/-- A submission that returns leaves no job behind that still holds its sender. -/
theorem ModelWorker.Sound.finish {worker : ModelWorker} (h : worker.Sound) {channel : ℕ}
    (hheld : channel ∉ worker.jobs.map Job.respond) (result : JobResult) :
    (worker.finish channel result).Sound := by
  refine h.of_count (fun channel => le_rfl) rfl (fun other hother => ?_) h.own (fun job hjob => ?_)
    (fun job hjob hwait => ?_) (fun hshutdown => ?_)
  · exact List.mem_append_right _ (List.mem_filter.1 hother).1
  · refine List.mem_filter.2 ⟨h.waits job hjob, decide_eq_true (fun hsame => hheld ?_)⟩
    refine List.mem_map.2 ⟨job, ?_, hsame⟩
    rw [ModelWorker.jobs, List.append_assoc]
    exact List.mem_append_right _ hjob
  · exact h.apart job hjob (List.mem_filter.1 hwait).1
  · obtain ⟨hentering, hwaiting⟩ := h.dropped hshutdown
    refine ⟨hentering, ?_⟩
    change worker.waiting.filter _ = []
    rw [hwaiting]
    rfl

theorem ModelWorker.Sound.exec (worker : ModelWorker) (step : ModelWorkerStep)
    (h : worker.Sound) : (worker.exec step).Sound := by
  have heffect := worker.exec_effect step
  generalize worker.exec step = after at heffect
  cases heffect with
  | unchanged => exact h
  | numbered priority kind hopen => exact h.numbered hopen rfl _
  | pushed job hentering => exact h.pushed hentering
  | shutDown => exact h.endThread
  | taken job hidle hqueue => exact h.taken hidle hqueue
  | modelChanged =>
      exact h.of_count (fun channel => le_rfl) rfl
        (fun channel hwait => List.mem_append_right _ hwait) h.own h.waits h.apart h.dropped
  | answered _ job result hphase => exact h.respond hphase result
  | loadPanicked => exact h.endThread
  | embedPanicked => exact h.endThread
  | received reply hreply =>
      -- an answered channel is held by no job
      have hchannel := List.mem_map_of_mem (f := Reply.channel) hreply
      exact h.finish (fun hheld => (List.nodup_append.1 h.tokens).2.2 _ hheld _ hchannel rfl) _
  | hungUp channel hgone => exact h.finish hgone _
  | handleDropped hnobody =>
      exact h.of_count (fun channel => le_rfl) rfl
        (fun channel hwait => List.mem_append_right _ hwait) h.own h.waits h.apart (fun _ => hnobody)

/-! ## Who is stranded -/

/-- The thread left no job in the queue when it ended. -/
def ModelWorker.Drained (worker : ModelWorker) : Prop := worker.phase = .ended → worker.queue = []

/-- Shutting down, the thread leaves no job: the handle is dropped when no submitter waits. -/
theorem ModelWorker.Sound.queue_of_shutdown {worker : ModelWorker} (h : worker.Sound)
    (hshutdown : worker.shutdown = true) : worker.queue = [] := by
  refine List.eq_nil_iff_forall_not_mem.2 (fun job hjob => ?_)
  have hwait := h.waits job (List.mem_append_left _ hjob)
  rw [(h.dropped hshutdown).2] at hwait
  cases hwait

theorem ModelWorker.Sound.repliesAndReleases {worker : ModelWorker} (h : worker.Sound)
    (hdrained : worker.Drained) : worker.RepliesAndReleases where
  oneReply := (List.nodup_append.1 h.tokens).2.1
  ownChannel := h.own
  notStranded hended channel hwait halive := by
    obtain ⟨job, hjob, rfl⟩ := List.mem_map.1 halive
    rw [ModelWorker.jobs, hdrained hended, hended, List.append_nil] at hjob
    rw [show ThreadPhase.ended.hand = [] from rfl, List.append_nil] at hjob
    exact h.apart job hjob hwait

/-- A job that is queued when the thread has ended strands its submitter. -/
theorem ModelWorker.stranded {worker : ModelWorker} {job : Job} (hended : worker.phase = .ended)
    (hqueued : job ∈ worker.queue) (hwait : job.respond ∈ worker.waiting) :
    ¬ worker.RepliesAndReleases := by
  intro h
  refine h.notStranded hended _ hwait (List.mem_map.2 ⟨job, ?_, rfl⟩)
  rw [ModelWorker.jobs, List.append_assoc]
  exact List.mem_append_right _ (List.mem_append_left _ hqueued)

/-- The thread ends by a panic. -/
theorem ModelWorker.endThread_repliesAndReleases_iff {worker : ModelWorker} (h : worker.Sound) :
    worker.endThread.RepliesAndReleases ↔ worker.queue = [] := by
  constructor
  · intro hreleases
    refine List.eq_nil_iff_forall_not_mem.2 (fun job hjob => ?_)
    have hwait := h.waits job (List.mem_append_left _ hjob)
    exact absurd hreleases (stranded rfl hjob hwait)
  · exact fun hempty => h.endThread.repliesAndReleases (fun _ => hempty)

theorem ModelWorker.Drained.exec {worker : ModelWorker} {step : ModelWorkerStep}
    (h : worker.Sound) (hdrained : worker.Drained) (hleaves : worker.LeavesNobody step) :
    (worker.exec step).Drained := by
  have heffect := worker.exec_effect step
  generalize worker.exec step = after at heffect
  cases heffect with
  | unchanged => exact hdrained
  | numbered => exact hdrained
  | pushed job hentering => exact fun hended => absurd hended (hleaves hentering)
  | shutDown job hshutdown => exact fun _ => h.queue_of_shutdown hshutdown
  | taken => exact nofun
  | modelChanged => exact hdrained
  | answered => exact nofun
  | loadPanicked job hphase hmodel => exact fun _ => hleaves job hphase hmodel rfl
  | embedPanicked embedder job hphase hmodel hpanic => exact fun _ => hleaves job hphase hmodel hpanic
  | received => exact hdrained
  | hungUp => exact hdrained
  | handleDropped => exact hdrained

/-- A step outside the condition strands somebody at once. -/
theorem ModelWorker.Sound.leavesNobody_of_exec {worker : ModelWorker} {step : ModelWorkerStep}
    (h : worker.Sound) (hreleases : (worker.exec step).RepliesAndReleases) :
    worker.LeavesNobody step := by
  cases step with
  | push job =>
      intro hentering hended
      rw [ModelWorker.exec, if_pos hentering] at hreleases
      exact absurd hreleases (stranded hended (List.mem_append_right _ List.mem_cons_self)
        (List.mem_append_right _ List.mem_cons_self))
  | load outcome =>
      rintro job hphase hmodel rfl
      simp only [ModelWorker.exec, hphase, hmodel] at hreleases
      exact (endThread_repliesAndReleases_iff h).1 hreleases
  | embed embedder =>
      intro job hphase hmodel hpanic
      simp only [ModelWorker.exec, hphase, hmodel, hpanic] at hreleases
      exact (endThread_repliesAndReleases_iff h).1 hreleases
  | _ => trivial

/-- **Who is stranded.** In every run from the spawned worker, each job has one reply at most, on
    its own channel, and nobody waits on a live sender once the thread has ended, exactly when no
    call of the loader or the embedder panics over a queued job and no job is queued after the
    thread's end. -/
theorem repliesAndReleases_iff (steps : List ModelWorkerStep) :
    AllStates ModelWorker.exec ModelWorker.RepliesAndReleases .spawned steps ↔
      StepsMeet ModelWorker.exec ModelWorker.LeavesNobody .spawned steps := by
  refine allStates_iff_stepsMeet (S := fun worker => worker.Sound ∧ worker.Drained)
    (A := fun _ _ => True) ?_ ?_ ?_ ⟨ModelWorker.sound_spawned, nofun⟩ ?_
  · exact fun worker h => h.1.repliesAndReleases h.2
  · exact fun worker step h _ hleaves => ⟨h.1.exec worker step, h.2.exec h.1 hleaves⟩
  · exact fun worker step h _ hleaves hreleases => hleaves (h.1.leavesNobody_of_exec hreleases)
  · exact StepsMeet.of_allStates (fun _ _ _ => trivial)
      (AllStates.of_step (I := fun _ => True) (fun _ _ _ => trivial) trivial)

/-- Two jobs are queued, and the loader panics over the first. -/
def panickedLoad : List ModelWorkerStep :=
  let first : Job := ⟨.backfill, 0, .query "first".toList, 0⟩
  let second : Job := ⟨.interactive, 1, .query "second".toList, 1⟩
  [.number .backfill first.kind, .push first, .take first,
    .number .interactive second.kind, .push second, .load .panicked]

theorem not_repliesAndReleases_panickedLoad :
    ¬ AllStates ModelWorker.exec ModelWorker.RepliesAndReleases .spawned panickedLoad := by
  intro h
  let second : Job := ⟨.interactive, 1, .query "second".toList, 1⟩
  have hqueued : second ∈ (final ModelWorker.exec .spawned panickedLoad).queue := by decide
  have hwait : second.respond ∈ (final ModelWorker.exec .spawned panickedLoad).waiting := by decide
  exact ModelWorker.stranded rfl hqueued hwait h.final

end Fndr
