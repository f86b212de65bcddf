import MuduoProtorpc.WordFreq.Worker

/-!
# How often a ShuffleKey request is answered

A refused request is answered once. The one request that is accepted is not answered before its
thread has come to its end; there it is answered twice, so the caller gets a RESPONSE with an
identifier it does not wait for any more. In every run, then, each request is answered as it should
be if and only if the thread has not come to its reply (`answeredOnce_iff`).
-/

set_option autoImplicit false
set_option relaxedAutoImplicit false

namespace MuduoProtorpc.WordFreq

open Foundation

/-! ### Requests and their answers -/

/-- The answers to a request. -/
def Worker.repliesTo (worker : Worker) (request : ℕ) : List (ℕ × ShuffleKeyResponse) :=
  worker.replies.filter fun reply ↦ reply.1 = request

/-- The request was handled, and no thread was started for it. -/
def Worker.Refused (worker : Worker) (request : ℕ) : Prop :=
  request < worker.requests ∧ ∀ thread, worker.thread = some thread → thread.request ≠ request

/-- The thread of the request has come to its end. -/
def Worker.Finished (worker : Worker) (request : ℕ) : Prop :=
  ∃ thread, worker.thread = some thread ∧ thread.request = request ∧
    thread.shuffle.phase = .replied

/-- The RESPONSEs that the channel of a caller takes for unknown, when it waits for some and gets
these in order: `RpcChannel::onRpcMessage` takes the call out of `outstandings_`. -/
def unknownResponses (outstandings : List ℕ) : List ℕ → List ℕ
  | [] => []
  | id :: rest =>
    if id ∈ outstandings then unknownResponses (outstandings.erase id) rest
    else id :: unknownResponses outstandings rest

/-- Every request was answered at most once, and once if it was refused or its thread is at its end;
and the caller, who waits for an answer to each, gets none that is unknown. -/
structure AnsweredOnce (worker : Worker) : Prop where
  atMostOnce : ∀ request, (worker.repliesTo request).length ≤ 1
  refused : ∀ request, worker.Refused request → (worker.repliesTo request).length = 1
  finished : ∀ request, worker.Finished request → (worker.repliesTo request).length = 1
  known : unknownResponses (List.range worker.requests) (worker.replies.map Prod.fst) = []

/-- The next step of the thread is its reply: all buffers were taken. -/
def Worker.AboutToReply (worker : Worker) : Prop :=
  ∃ thread taken, worker.thread = some thread ∧ thread.shuffle.phase = .draining taken ∧
    thread.input.concurrentRequests ≤ taken

/-- Every action but the step of a thread that is about to reply. -/
def BeforeReply (worker : Worker) (action : WorkerAction) : Prop :=
  ∀ elapsed, action = .thread elapsed → ¬ worker.AboutToReply

/-! ### How many answers there are -/

/-- How many answers there are to a request: none before it is handled, and none while its thread
runs; two when its thread is at its end; and one if it was refused. -/
def Worker.expectedReplies (worker : Worker) (request : ℕ) : ℕ :=
  if request < worker.requests then
    match worker.thread with
    | some thread =>
      if thread.request = request then if thread.shuffle.phase = .replied then 2 else 0
      else 1
    | none => 1
  else 0

/-- The thread is that of a request that was handled, and the answers are as many as expected. -/
structure WorkerInvariant (worker : Worker) : Prop where
  idle : worker.shuffling = false → worker.thread = none
  thread : ∀ thread, worker.thread = some thread → thread.request < worker.requests
  replies : ∀ request, (worker.repliesTo request).length = worker.expectedReplies request

section Counts

variable {worker next : Worker} {action : WorkerAction} {peers : ℕ} {keys : List ℤ}
  {actions : List WorkerAction}

/-- A shuffle that makes a step has not replied. -/
theorem phase_ne_replied {input : ShuffleInput} {shuffle later : Shuffle}
    (hstep : shuffleStep input shuffle = some later) : shuffle.phase ≠ .replied := by
  intro hphase
  simp [shuffleStep, hphase] at hstep

/-- A call that completes does not move the shuffle. -/
theorem phase_doneShardKey {shuffle later : Shuffle} {shardReq : ℕ}
    (hstep : doneShardKey shuffle shardReq = some later) : later.phase = shuffle.phase := by
  obtain ⟨-, rfl⟩ := doneShardKey_cases hstep
  rfl

/-- An answer more. -/
theorem length_repliesTo_append (worker : Worker) (reply : ℕ × ShuffleKeyResponse) (request : ℕ) :
    ((worker.replies ++ [reply]).filter fun reply ↦ reply.1 = request).length =
      (worker.repliesTo request).length + if reply.1 = request then 1 else 0 := by
  rw [List.filter_append, List.length_append, Worker.repliesTo]
  by_cases hrequest : reply.1 = request
  · simp [hrequest]
  · simp [hrequest]

theorem workerInvariant_initial (peers : ℕ) (keys : List ℤ) :
    WorkerInvariant (workerSystem peers keys).start :=
  ⟨fun _ ↦ rfl, fun thread hthread ↦ (by cases hthread), fun request ↦ rfl⟩

/-- A thread that goes further without a reply leaves the answers as they are. -/
theorem WorkerInvariant.set_thread (hinvariant : WorkerInvariant worker) {thread : ShuffleThread}
    (hthread : worker.thread = some thread) {shuffle : Shuffle}
    (hsame : shuffle.phase = .replied ↔ thread.shuffle.phase = .replied) :
    WorkerInvariant { worker with thread := some { thread with shuffle := shuffle } } := by
  refine ⟨fun hidle ↦ ?_, fun other hother ↦ ?_, fun request ↦ ?_⟩
  · have hnone := hinvariant.idle hidle
    rw [hthread] at hnone
    cases hnone
  · obtain rfl := Option.some.inj hother
    exact hinvariant.thread thread hthread
  · have hreplies := hinvariant.replies request
    simp only [Worker.expectedReplies, hthread] at hreplies ⊢
    simp only [hsame]
    exact hreplies

/-- The answers are as many as expected after every step. -/
theorem WorkerInvariant.moved (hinvariant : WorkerInvariant worker)
    (hmoved : WorkerMoved worker action next) : WorkerInvariant next := by
  cases hmoved with
  | accept hshuffling =>
    have hnone := hinvariant.idle hshuffling
    refine ⟨fun hidle ↦ (by cases hidle), fun other hother ↦ ?_, fun request ↦ ?_⟩
    · obtain rfl := Option.some.inj hother
      exact Nat.lt_succ_self _
    · have hreplies := hinvariant.replies request
      refine hreplies.trans ?_
      simp only [Worker.expectedReplies, hnone, Shuffle.initial]
      split_ifs <;> omega
  | @refuse pivots error =>
    refine ⟨hinvariant.idle, fun thread hthread ↦ ?_, fun request ↦ ?_⟩
    · exact Nat.lt_succ_of_lt (hinvariant.thread thread hthread)
    · have hreplies := hinvariant.replies request
      have happend : (Worker.repliesTo { worker with
          requests := worker.requests + 1
          replies := worker.replies ++ [(worker.requests, { error := some error })] }
            request).length =
          (worker.repliesTo request).length + if worker.requests = request then 1 else 0 :=
        length_repliesTo_append worker _ request
      rw [happend, hreplies]
      simp only [Worker.expectedReplies]
      cases hthread : worker.thread with
      | none =>
        simp only
        split_ifs <;> omega
      | some thread =>
        have hless := hinvariant.thread thread hthread
        simp only
        split_ifs <;> omega
  | run hthread hstep hphase =>
    have hbefore := phase_ne_replied hstep
    exact hinvariant.set_thread hthread (by simp [hphase, hbefore])
  | @reply elapsed thread shuffle hthread hstep hphase =>
    have hbefore := phase_ne_replied hstep
    have hless := hinvariant.thread thread hthread
    refine ⟨fun hidle ↦ ?_, fun other hother ↦ ?_, fun request ↦ ?_⟩
    · have hnone := hinvariant.idle hidle
      rw [hthread] at hnone
      cases hnone
    · obtain rfl := Option.some.inj hother
      exact hless
    · have hreplies := hinvariant.replies request
      have happend : (Worker.repliesTo { worker with
          thread := some { thread with shuffle := shuffle }
          replies := worker.replies ++
            [(thread.request, { elapsed := some elapsed }), (thread.request, {})] }
              request).length =
          (worker.repliesTo request).length + if thread.request = request then 2 else 0 := by
        simp only [Worker.repliesTo, List.filter_append, List.length_append]
        by_cases hrequest : thread.request = request
        · simp [hrequest]
        · simp [hrequest]
      rw [happend, hreplies]
      simp only [Worker.expectedReplies, hthread, hphase, if_true, if_neg hbefore]
      split_ifs <;> omega
  | complete hthread hstep =>
    exact hinvariant.set_thread hthread (by rw [phase_doneShardKey hstep])
  | receive => exact ⟨hinvariant.idle, hinvariant.thread, hinvariant.replies⟩
  | unaddressed => exact ⟨hinvariant.idle, hinvariant.thread, hinvariant.replies⟩
  | occupied => exact ⟨hinvariant.idle, hinvariant.thread, hinvariant.replies⟩

theorem workerInvariant_of_run (hrun : (workerSystem peers keys).Run actions worker) :
    WorkerInvariant worker :=
  hrun.invariant (workerInvariant_initial peers keys)
    fun _ _ _ _ hstep hbefore ↦ hbefore.moved (workerStep_cases hstep)

/-! ### Who is answered once -/

/-- The thread has replied. -/
def Worker.Replied (worker : Worker) : Prop :=
  ∃ thread, worker.thread = some thread ∧ thread.shuffle.phase = .replied

/-- While the thread has not replied, no request is answered twice. -/
theorem WorkerInvariant.atMostOnce (hinvariant : WorkerInvariant worker)
    (hreplied : ¬ worker.Replied) (request : ℕ) : (worker.repliesTo request).length ≤ 1 := by
  rw [hinvariant.replies request]
  unfold Worker.expectedReplies
  split
  · split
    · rename_i thread hthread
      have hphase : thread.shuffle.phase ≠ .replied :=
        fun hphase ↦ hreplied ⟨thread, hthread, hphase⟩
      rw [if_neg hphase]
      split_ifs
      · exact Nat.zero_le 1
      · exact Nat.le_refl 1
    · exact Nat.le_refl 1
  · exact Nat.zero_le 1

/-- A refused request is answered once. -/
theorem WorkerInvariant.refused (hinvariant : WorkerInvariant worker) {request : ℕ}
    (hrefused : worker.Refused request) : (worker.repliesTo request).length = 1 := by
  obtain ⟨hrequest, hother⟩ := hrefused
  rw [hinvariant.replies request, Worker.expectedReplies, if_pos hrequest]
  split
  · rename_i thread hthread
    rw [if_neg (hother thread hthread)]
  · rfl

/-- A request whose thread has replied is answered twice. -/
theorem WorkerInvariant.replied (hinvariant : WorkerInvariant worker) {thread : ShuffleThread}
    (hthread : worker.thread = some thread) (hphase : thread.shuffle.phase = .replied) :
    (worker.repliesTo thread.request).length = 2 := by
  have hrequest := hinvariant.thread thread hthread
  rw [hinvariant.replies thread.request, Worker.expectedReplies, if_pos hrequest, hthread]
  simp only [hphase, if_true]

/-- Answers to different calls that are waited for are not unknown. -/
theorem unknownResponses_eq_nil {ids outstandings : List ℕ} (hids : ids.Nodup)
    (hwaiting : ∀ id ∈ ids, id ∈ outstandings) : unknownResponses outstandings ids = [] := by
  induction ids generalizing outstandings with
  | nil => rfl
  | cons id rest ih =>
    obtain ⟨hid, hrest⟩ := List.nodup_cons.mp hids
    rw [unknownResponses, if_pos (hwaiting id List.mem_cons_self)]
    refine ih hrest fun other hother ↦ ?_
    have hne : other ≠ id := by
      rintro rfl
      exact hid hother
    exact (List.mem_erase_of_ne hne).mpr (hwaiting other (List.mem_cons_of_mem id hother))

/-- The answers to a request, counted by their identifiers. -/
theorem count_replies (worker : Worker) (request : ℕ) :
    (worker.replies.map Prod.fst).count request = (worker.repliesTo request).length := by
  rw [List.count_eq_countP, List.countP_map, Worker.repliesTo, List.countP_eq_length_filter]
  rfl

/-- While the thread has not replied, every request is answered as it should be. -/
theorem WorkerInvariant.answeredOnce (hinvariant : WorkerInvariant worker)
    (hreplied : ¬ worker.Replied) : AnsweredOnce worker := by
  refine ⟨hinvariant.atMostOnce hreplied, fun request hrefused ↦ hinvariant.refused hrefused,
    fun request hfinished ↦ ?_, unknownResponses_eq_nil ?_ fun id hid ↦ ?_⟩
  · obtain ⟨thread, hthread, -, hphase⟩ := hfinished
    exact absurd ⟨thread, hthread, hphase⟩ hreplied
  · rw [List.nodup_iff_count_le_one]
    intro request
    rw [count_replies]
    exact hinvariant.atMostOnce hreplied request
  · have hcount := List.count_pos_iff.mpr hid
    rw [count_replies, hinvariant.replies id, Worker.expectedReplies] at hcount
    split_ifs at hcount with hrequest
    · exact List.mem_range.mpr hrequest
    · exact absurd hcount (Nat.lt_irrefl 0)

/-- A worker whose thread has replied has answered a request twice. -/
theorem WorkerInvariant.not_answeredOnce (hinvariant : WorkerInvariant worker)
    (hreplied : worker.Replied) : ¬ AnsweredOnce worker := by
  obtain ⟨thread, hthread, hphase⟩ := hreplied
  intro hanswered
  have htwice := hinvariant.replied hthread hphase
  have honce := hanswered.atMostOnce thread.request
  omega

/-! ### Runs without a reply -/

/-- A shuffle comes to its reply from the end of its third loop. -/
theorem draining_of_replied {input : ShuffleInput} {shuffle later : Shuffle}
    (hstep : shuffleStep input shuffle = some later) (hphase : later.phase = .replied) :
    ∃ taken, shuffle.phase = .draining taken ∧ input.concurrentRequests ≤ taken := by
  cases shuffleStep_cases hstep with
  | reply hdraining htaken => exact ⟨_, hdraining, htaken⟩
  | _ => cases hphase

/-- A step that is not that of a thread about to reply does not come to the reply. -/
theorem not_replied_of_beforeReply (hmoved : WorkerMoved worker action next)
    (hbefore : BeforeReply worker action) (hreplied : ¬ worker.Replied) : ¬ next.Replied := by
  rintro ⟨thread, hthread, hphase⟩
  cases hmoved with
  | accept =>
    obtain rfl := Option.some.inj hthread
    cases hphase
  | refuse => exact hreplied ⟨thread, hthread, hphase⟩
  | run _ _ hrunning =>
    obtain rfl := Option.some.inj hthread
    exact hrunning hphase
  | reply hthread' hstep hdone =>
    obtain ⟨taken, hdraining, htaken⟩ := draining_of_replied hstep hdone
    exact hbefore _ rfl ⟨_, taken, hthread', hdraining, htaken⟩
  | complete hthread' hstep =>
    obtain rfl := Option.some.inj hthread
    exact hreplied ⟨_, hthread', (phase_doneShardKey hstep).symm.trans hphase⟩
  | receive => exact hreplied ⟨thread, hthread, hphase⟩
  | unaddressed => exact hreplied ⟨thread, hthread, hphase⟩
  | occupied => exact hreplied ⟨thread, hthread, hphase⟩

/-- A worker whose thread has replied stays one. -/
theorem replied_of_moved (hinvariant : WorkerInvariant worker)
    (hmoved : WorkerMoved worker action next) (hreplied : worker.Replied) : next.Replied := by
  obtain ⟨thread, hthread, hphase⟩ := hreplied
  cases hmoved with
  | accept hshuffling =>
    have hnone := hinvariant.idle hshuffling
    rw [hthread] at hnone
    cases hnone
  | refuse => exact ⟨thread, hthread, hphase⟩
  | run hthread' hstep =>
    obtain rfl := Option.some.inj (hthread.symm.trans hthread')
    exact absurd hphase (phase_ne_replied hstep)
  | reply hthread' hstep =>
    obtain rfl := Option.some.inj (hthread.symm.trans hthread')
    exact absurd hphase (phase_ne_replied hstep)
  | complete hthread' hstep =>
    obtain rfl := Option.some.inj (hthread.symm.trans hthread')
    exact ⟨_, rfl, (phase_doneShardKey hstep).trans hphase⟩
  | receive => exact ⟨thread, hthread, hphase⟩
  | unaddressed => exact ⟨thread, hthread, hphase⟩
  | occupied => exact ⟨thread, hthread, hphase⟩

/-- The step of a thread that is about to reply is its reply. -/
theorem replied_of_aboutToReply {elapsed : ℕ} (habout : worker.AboutToReply)
    (hmoved : WorkerMoved worker (.thread elapsed) next) : next.Replied := by
  obtain ⟨thread, taken, hthread, hdraining, htaken⟩ := habout
  cases hmoved with
  | run hthread' hstep hrunning =>
    obtain rfl := Option.some.inj (hthread.symm.trans hthread')
    simp only [shuffleStep, hdraining, if_neg (Nat.not_lt.mpr htaken)] at hstep
    obtain rfl := Option.some.inj hstep
    exact absurd rfl hrunning
  | reply _ _ hdone => exact ⟨_, rfl, hdone⟩

/-- The thread has not replied in the end of a run if and only if no step of the run was that of a
thread about to reply. -/
theorem not_replied_iff (hrun : (workerSystem peers keys).Run actions worker) :
    ¬ worker.Replied ↔ (workerSystem peers keys).RunWhen BeforeReply actions worker := by
  constructor
  · intro hreplied
    induction hrun with
    | start => exact .start
    | @step actions state next action hrun _ hstep ih =>
      have hmoved := workerStep_cases hstep
      refine .step (ih fun hstate ↦ ?_) ?_ hstep
      · exact hreplied (replied_of_moved (workerInvariant_of_run hrun) hmoved hstate)
      · rintro elapsed rfl habout
        exact hreplied (replied_of_aboutToReply habout hmoved)
  · intro hbefore
    induction hbefore with
    | start =>
      rintro ⟨thread, hthread, -⟩
      cases hthread
    | step hbefore hpermitted hstep ih =>
      exact not_replied_of_beforeReply (workerStep_cases hstep) hpermitted (ih hbefore.run)

/-- In every run, every request is answered as it should be if and only if no step of the run was
that of a thread about to reply. -/
theorem answeredOnce_iff (hrun : (workerSystem peers keys).Run actions worker) :
    AnsweredOnce worker ↔ (workerSystem peers keys).RunWhen BeforeReply actions worker := by
  have hinvariant := workerInvariant_of_run hrun
  rw [← not_replied_iff hrun]
  constructor
  · intro hanswered hreplied
    exact hinvariant.not_answeredOnce hreplied hanswered
  · exact hinvariant.answeredOnce

end Counts

/-! ### A request that is refused, and one that is not -/

/-- A request with too few pivots is refused, and answered once. -/
theorem answeredOnce_refused : ∃ worker : Worker,
    (workerSystem 1 [3]).Run [.shuffleKey []] worker ∧ AnsweredOnce worker := by
  have hrun : (workerSystem 1 [3]).Run [.shuffleKey []] _ := .of_execute rfl
  exact ⟨_, hrun, (answeredOnce_iff hrun).mpr (.step .start (by simp [BeforeReply]) rfl)⟩

/-- The shuffle of a worker with one key and one peer, whose one call completes: the key, the end of
the first loop, the part, the end of the second loop, the four buffers, and the reply. -/
def oneShuffle : List WorkerAction :=
  .shuffleKey [5] :: (List.replicate 4 (.thread 0) ++ .complete 0 :: List.replicate 5 (.thread 0))

/-- Its request is answered twice. -/
theorem not_answeredOnce_of_reply :
    ¬ ∀ (peers : ℕ) (keys : List ℤ) (actions : List WorkerAction) (worker : Worker),
      (workerSystem peers keys).Run actions worker → AnsweredOnce worker := by
  intro hall
  have hexecutes : ((workerSystem 1 [3]).execute (workerSystem 1 [3]).start oneShuffle).map
      (fun worker ↦ (worker.repliesTo 0).length) = some 2 := by
    decide +kernel
  obtain ⟨worker, hexecute, htwice⟩ := Option.map_eq_some_iff.mp hexecutes
  have honce := (hall 1 [3] oneShuffle worker (.of_execute hexecute)).atMostOnce 0
  omega

end MuduoProtorpc.WordFreq
