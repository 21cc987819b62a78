import Kaine.Sleep.Exclusive

/-! The answers to rest requests: what has been answered to each by the time its coroutine stands
somewhere. -/
namespace Kaine.Sleep

variable {s s' : Sleep} {i j n : ℕ} {task task' : Task} {request : Request}
  {trigger : Option Trigger} {log new : List Event} {pc : Pc} {m : Move}

def Event.answer? (k : ℕ) : Event → Option Answer
  | .restRequest request answer => if request.number = k then some answer else none
  | _ => none

/-- The answers to one request, in the order in which they were published. -/
def answers (k : ℕ) (log : List Event) : List Answer := log.filterMap (Event.answer? k)

theorem answers_append (k : ℕ) (log new : List Event) :
    answers k (log ++ new) = answers k log ++ answers k new := List.filterMap_append ..

/-- Events that answer one request at most. -/
def AnswersOnly (asked : Option Request) (new : List Event) : Prop :=
  ∀ event ∈ new, ∀ request answer, event = .restRequest request answer → asked = some request

theorem answers_only {asked : Option Request} {k : ℕ} (h : AnswersOnly asked new)
    (hk : ∀ request, asked = some request → request.number ≠ k) : answers k new = [] := by
  refine List.filterMap_eq_nil_iff.2 fun event hevent => ?_
  cases event with
  | restRequest request answer =>
    have hasked := h _ hevent request answer rfl
    exact if_neg (hk request hasked)
  | started _ _ _ | completed _ _ _ | reset _ => rfl

theorem answersOnly_said {asked : Option Request} {outcome : Outcome} {event : Event}
    (h : ∀ request answer, event = .restRequest request answer → asked = some request) :
    AnswersOnly asked (said outcome event) := by
  unfold said
  split
  · intro event' hevent'
    rw [List.mem_singleton.1 hevent']
    exact h
  · simp [AnswersOnly]

/-- What may be logged while a sleep starts: refusals, and the end of an earlier sleep that comes
late. -/
def Elsewhere (n : ℕ) : Event → Prop
  | .restRequest _ answer => answer = .busy ∨ answer = .tooSoon
  | .completed m _ _ => m < n
  | _ => False

/-- A sleep's start stands in the log, and nothing of that sleep or a later one after it. -/
def Announced (trigger : Option Trigger) (n : ℕ) (log : List Event) : Prop :=
  ∃ (start : ℕ) (restSeconds : Option ℚ), log[start]? = some (Event.started n trigger restSeconds) ∧
    ∀ (l : ℕ) (event : Event), start < l → log[l]? = some event → Elsewhere n event

theorem announced_start (log : List Event) (trigger : Option Trigger) (n : ℕ)
    (restSeconds : Option ℚ) : Announced trigger n (log ++ [.started n trigger restSeconds]) := by
  refine ⟨log.length, restSeconds, by simp, fun l event hl hevent => ?_⟩
  have hlt : l < log.length + 1 := by
    obtain ⟨hlt, -⟩ := List.getElem?_eq_some_iff.1 hevent
    simpa using hlt
  omega

theorem Announced.append (h : Announced trigger n log) (hnew : ∀ event ∈ new, Elsewhere n event) :
    Announced trigger n (log ++ new) := by
  obtain ⟨start, restSeconds, hstart, hafter⟩ := h
  have hlt : start < log.length := (List.getElem?_eq_some_iff.1 hstart).1
  refine ⟨start, restSeconds, by rwa [List.getElem?_append_left hlt], fun l event hl hevent => ?_⟩
  rcases Nat.lt_or_ge l log.length with hold | hold
  · rw [List.getElem?_append_left hold] at hevent
    exact hafter l event hl hevent
  · rw [List.getElem?_append_right hold] at hevent
    exact hnew event (List.mem_of_getElem? hevent)

/-- What has been answered to a request whose coroutine stands there. -/
def Stands (s : Sleep) (request : Request) (given : List Answer) : Pc → Prop
  | .scheduled => given = []
  | .startedPublish => given = [] ∧ s.pendingRest = some request ∧ s.requestedRestAccepted = false
  | .acceptedPublish pending => pending = request ∧ given = [] ∧ s.requestedRestAccepted = true
  | .abortPublish _ _ => given = if s.requestedRestAccepted then [.accepted] else []
  | .answerPublish pending answer => pending = request ∧
      (given = [] ∧ (answer = .busy ∨ answer = .failed) ∨ given = [.accepted] ∧ answer = .aborted)
  | .done =>
    given = [.busy] ∨ given = [.failed] ∨ given = [.accepted] ∨ given = [.accepted, .aborted]
  | _ => given = [.accepted] ∧ s.requestedRestAccepted = true

theorem Stands.of_eq {given : List Answer} (h : Stands s request given pc)
    (hflags : pc = .done ∨ s'.pendingRest = s.pendingRest ∧
      s'.requestedRestAccepted = s.requestedRestAccepted) : Stands s' request given pc := by
  rcases hflags with rfl | ⟨hpending, haccepted⟩
  · exact h
  · cases pc <;> simpa only [Stands, hpending, haccepted] using h

/-- Where a requested sleep comes only if it is cancelled or held. -/
def Pc.cutOrHeld : Pc → Bool
  | .holding => true
  | .reset exn => exn = some .cancelled
  | .abortPublish exn _ => exn = .cancelled
  | _ => false

/-- Where a coroutine is about to answer a request. -/
def Pc.answers : Pc → Bool
  | .acceptedPublish _ | .answerPublish _ _ => true
  | _ => false

/-- Where a coroutine stands, against what has been answered. -/
structure Standing (s : Sleep) (task : Task) : Prop where
  answered : ∀ request, task.site.request? = some request →
    Stands s request (answers request.number s.log) task.pc
  uncut : ∀ request, task.site = .requested request → task.pc.cutOrHeld = false
  unasked : task.site.request? = none → task.pc.answers = false
  announced : ∀ pending, task.pc = .acceptedPublish pending →
    Announced task.site.trigger s.sleepCount s.log

/-- A coroutine stands where it stood when what it reads has not changed. -/
theorem Standing.frame (h : Standing s task)
    (hanswers : ∀ request, task.site.request? = some request →
      answers request.number s'.log = answers request.number s.log)
    (hflags : ∀ request, task.site.request? = some request → task.pc = .done ∨
      s'.pendingRest = s.pendingRest ∧ s'.requestedRestAccepted = s.requestedRestAccepted)
    (hannounced : ∀ pending, task.pc = .acceptedPublish pending →
      Announced task.site.trigger s.sleepCount s.log →
        Announced task.site.trigger s'.sleepCount s'.log) : Standing s' task := by
  refine ⟨fun request hrequest => ?_, h.uncut, h.unasked, fun pending hpc => ?_⟩
  · rw [hanswers request hrequest]
    exact (h.answered request hrequest).of_eq (hflags request hrequest)
  · exact hannounced pending hpc (h.announced pending hpc)

/-- A task with a request is not a direct call. -/
theorem ne_direct_of_request (h : task.site.request? = some request) : task.site ≠ .direct := by
  intro hsite
  rw [hsite] at h
  cases h

theorem owes_of_request (h : task.site.request? = some request) (hpc : task.pc ≠ .done) :
    task.owes = true := by simp [Task.owes, ne_direct_of_request h, hpc]

/-- Every request that has been handled is answered, or its coroutine is to answer it. -/
structure Answering (s : Sleep) : Prop where
  standing : ∀ (i : ℕ) task, s.tasks[i]? = some task → Standing s task
  distinct : ∀ (i j : ℕ) task task' request request', s.tasks[i]? = some task →
    s.tasks[j]? = some task' → task.site.request? = some request →
      task'.site.request? = some request' → request.number = request'.number → i = j
  numbered : ∀ (i : ℕ) task request, s.tasks[i]? = some task → task.site.request? = some request →
    request.number < s.handled
  unasked : ∀ k, s.handled ≤ k → answers k s.log = []
  refused : ∀ k < s.handled, answers k s.log = [.busy] ∨ answers k s.log = [.tooSoon] ∨
    ∃ task ∈ s.tasks, ∃ request, task.site.request? = some request ∧ request.number = k
  accepted : ∀ (k : ℕ) request, s.log[k]? = some (.restRequest request .accepted) →
    ∃ task ∈ s.tasks, task.site.request? = some request ∧
      ∃ n, Announced task.site.trigger n (s.log.take k)

/-- A coroutine about to accept a request runs a sleep. -/
theorem inPipeline_of_accepted {pending : Request} (h : pc = .acceptedPublish pending) :
    pc.inPipeline = true := by
  rw [h]
  rfl

/-- Acceptances in a log that has grown are old ones, or new. -/
theorem accepted_append {tasks tasks' : List Task}
    (hold : ∀ (k : ℕ) request, log[k]? = some (.restRequest request .accepted) →
      ∃ task ∈ tasks, task.site.request? = some request ∧
        ∃ n, Announced task.site.trigger n (log.take k))
    (htasks : ∀ task ∈ tasks, ∃ task' ∈ tasks', task'.site = task.site)
    (hnew : ∀ (k : ℕ) request, new[k]? = some (.restRequest request .accepted) → k = 0 ∧
      ∃ task ∈ tasks', task.site.request? = some request ∧ ∃ n, Announced task.site.trigger n log)
    (k : ℕ) (request : Request) (h : (log ++ new)[k]? = some (.restRequest request .accepted)) :
    ∃ task ∈ tasks', task.site.request? = some request ∧
      ∃ n, Announced task.site.trigger n ((log ++ new).take k) := by
  rcases Nat.lt_or_ge k log.length with hlt | hge
  · rw [List.getElem?_append_left hlt] at h
    obtain ⟨task, htask, hrequest, n, hannounced⟩ := hold k request h
    obtain ⟨task', htask', hsite⟩ := htasks task htask
    rw [List.take_append_of_le_length hlt.le]
    exact ⟨task', htask', hsite ▸ hrequest, n, hsite ▸ hannounced⟩
  · rw [List.getElem?_append_right hge] at h
    obtain ⟨hzero, task, htask, hrequest, n, hannounced⟩ := hnew _ request h
    have hk : k = log.length := by omega
    rw [hk, List.take_left]
    exact ⟨task, htask, hrequest, n, hannounced⟩

/-- A move that changes no task and answers no request, or refuses one. -/
structure Idle (s s' : Sleep) (new : List Event) : Prop where
  tasks : s'.tasks = s.tasks
  log : s'.log = s.log ++ new
  flags : s'.pendingRest = s.pendingRest ∧ s'.requestedRestAccepted = s.requestedRestAccepted
  sleepCount : s'.sleepCount = s.sleepCount
  elsewhere : ∀ task ∈ s.tasks, task.pc.inPipeline = true →
    ∀ event ∈ new, Elsewhere s.sleepCount event
  answers : (∀ k, answers k new = []) ∧ s'.handled = s.handled ∨
    ∃ request answer, new = [.restRequest request answer] ∧ (answer = .busy ∨ answer = .tooSoon) ∧
      request.number = s.handled ∧ s'.handled = s.handled + 1

theorem Idle.answers_eq (h : Idle s s' new) {k : ℕ} (hk : k ≠ s.handled) :
    Sleep.answers k s'.log = Sleep.answers k s.log := by
  rw [h.log, answers_append]
  rcases h.answers with ⟨hnone, -⟩ | ⟨request, answer, rfl, -, hnumber, -⟩
  · rw [hnone, List.append_nil]
  · have hother : Sleep.answers k [.restRequest request answer] = [] := by
      simp [Sleep.answers, Event.answer?, hnumber, Ne.symm hk]
    rw [hother, List.append_nil]

theorem Answering.idle (h : Answering s) (hidle : Idle s s' new) : Answering s' := by
  have hgrown (k : ℕ) (hk : k ≠ s.handled) : answers k s'.log = answers k s.log :=
    hidle.answers_eq hk
  obtain ⟨htasks, hlog, hflags, hcount, helse, hnew⟩ := hidle
  have hhandled : s.handled ≤ s'.handled := by
    rcases hnew with ⟨-, h⟩ | ⟨_, _, _, _, _, h⟩ <;> omega
  constructor
  · intro j task hj
    rw [htasks] at hj
    refine (h.standing j task hj).frame (fun request hrequest => hgrown _ ?_) (fun _ _ =>
      .inr hflags) ?_
    · exact (h.numbered j task request hj hrequest).ne
    · intro pending hpc hannounced
      rw [hlog, hcount]
      exact hannounced.append
        (helse task (List.mem_of_getElem? hj) (inPipeline_of_accepted hpc))
  · intro i j task task' request request' hi hj
    rw [htasks] at hi hj
    exact h.distinct i j task task' request request' hi hj
  · intro i task request hi hrequest
    rw [htasks] at hi
    exact (h.numbered i task request hi hrequest).trans_le hhandled
  · intro k hk
    rw [hlog, answers_append, h.unasked k (by omega), List.nil_append]
    rcases hnew with ⟨hnone, -⟩ | ⟨request, answer, rfl, -, hnumber, hnext⟩
    · exact hnone k
    · have hother : s.handled ≠ k := by omega
      simp [answers, Event.answer?, hnumber, hother]
  · intro k hk
    by_cases hlast : k = s.handled
    · rcases hnew with ⟨-, hsame⟩ | ⟨request, answer, rfl, hanswer, hnumber, -⟩
      · omega
      · have honly : answers k s'.log = [answer] := by
          rw [hlog, answers_append, h.unasked k hlast.ge]
          simp [answers, Event.answer?, hnumber, hlast]
        rw [honly]
        rcases hanswer with rfl | rfl <;> simp
    · rw [hgrown k hlast, htasks]
      refine h.refused k ?_
      rcases hnew with ⟨-, hsame⟩ | ⟨_, _, _, _, _, hnext⟩ <;> omega
  · rw [hlog]
    refine accepted_append h.accepted (fun task htask => ⟨task, htasks ▸ htask, rfl⟩) ?_
    intro k request hk
    have hmem := List.mem_of_getElem? hk
    rcases hnew with ⟨hnone, -⟩ | ⟨request', answer, rfl, hanswer, -, -⟩
    · have hsome : Answer.accepted ∈ answers request.number new :=
        List.mem_filterMap.2 ⟨_, hmem, by simp [Event.answer?]⟩
      rw [hnone] at hsome
      cases hsome
    · rcases hanswer with rfl | rfl <;> simp at hmem

/-- A move that schedules a coroutine, with the request that it is to answer. -/
structure Created (s s' : Sleep) (site : Site) : Prop where
  tasks : s'.tasks = s.tasks ++ [⟨site, .scheduled, 0⟩]
  log : s'.log = s.log
  flags : s'.pendingRest = s.pendingRest ∧ s'.requestedRestAccepted = s.requestedRestAccepted
  sleepCount : s'.sleepCount = s.sleepCount
  request : site.request? = none ∧ s'.handled = s.handled ∨
    ∃ request, site.request? = some request ∧ request.number = s.handled ∧
      s'.handled = s.handled + 1

theorem Answering.created {site : Site} (h : Answering s) (hcreated : Created s s' site) :
    Answering s' := by
  obtain ⟨htasks, hlog, hflags, hcount, hrequest⟩ := hcreated
  have hmem {task : Task} (htask : task ∈ s.tasks) : task ∈ s'.tasks := by
    rw [htasks]
    exact List.mem_append_left _ htask
  have hnumber {request : Request} (hsite : site.request? = some request) :
      request.number = s.handled ∧ s'.handled = s.handled + 1 := by
    rcases hrequest with ⟨hnone, -⟩ | ⟨request', hsome, hnumber⟩
    · rw [hnone] at hsite
      cases hsite
    · rw [hsite] at hsome
      cases hsome
      exact hnumber
  have hhandled : s.handled ≤ s'.handled := by
    rcases hrequest with ⟨-, hsame⟩ | ⟨_, _, _, hnext⟩ <;> omega
  constructor
  · intro j task hj
    rw [htasks] at hj
    rcases getElem?_concat_cases hj with hold | ⟨-, rfl⟩
    · refine (h.standing j task hold).frame (fun _ _ => by rw [hlog]) (fun _ _ => .inr hflags) ?_
      intro pending _ hannounced
      rw [hlog, hcount]
      exact hannounced
    · refine ⟨fun request hsite => ?_, fun _ _ => rfl, fun _ => rfl,
        fun pending hpc => by cases hpc⟩
      rw [hlog]
      exact h.unasked _ (hnumber hsite).1.ge
  · intro i j task task' request request' hi hj hreq hreq' heq
    rw [htasks] at hi hj
    rcases getElem?_concat_cases hi with hi | ⟨rfl, rfl⟩
    · rcases getElem?_concat_cases hj with hj | ⟨rfl, rfl⟩
      · exact h.distinct i j task task' request request' hi hj hreq hreq' heq
      · have hlt := h.numbered i task request hi hreq
        have hlast := (hnumber hreq').1
        omega
    · rcases getElem?_concat_cases hj with hj | ⟨rfl, rfl⟩
      · have hlt := h.numbered j task' request' hj hreq'
        have hlast := (hnumber hreq).1
        omega
      · rfl
  · intro i task request hi hreq
    rw [htasks] at hi
    rcases getElem?_concat_cases hi with hi | ⟨-, rfl⟩
    · exact (h.numbered i task request hi hreq).trans_le hhandled
    · have hlast := hnumber hreq
      omega
  · intro k hk
    rw [hlog]
    exact h.unasked k (hhandled.trans hk)
  · intro k hk
    rw [hlog]
    by_cases hlast : k < s.handled
    · rcases h.refused k hlast with hbusy | hsoon | ⟨task, htask, hreq⟩
      · exact .inl hbusy
      · exact .inr (.inl hsoon)
      · exact .inr (.inr ⟨task, hmem htask, hreq⟩)
    · rcases hrequest with ⟨-, hsame⟩ | ⟨request, hsite, hnumber, hnext⟩
      · omega
      · exact .inr (.inr ⟨⟨site, .scheduled, 0⟩, by simp [htasks], request, hsite, by omega⟩)
  · rw [hlog]
    intro k request hk
    obtain ⟨task, htask, hreq⟩ := h.accepted k request hk
    exact ⟨task, hmem htask, hreq⟩

/-- A move of one coroutine, which answers its own request at most. -/
structure Went (s s' : Sleep) (i : ℕ) (task task' : Task) (new : List Event) : Prop where
  ne_done : task.pc ≠ .done
  tasks : s'.tasks = s.tasks.set i task'
  site : task'.site = task.site
  log : s'.log = s.log ++ new
  handled : s'.handled = s.handled
  only : AnswersOnly task.site.request? new
  flags : task.site.request? = none → s'.pendingRest = s.pendingRest ∧
    s'.requestedRestAccepted = s.requestedRestAccepted
  quiet : s.sleepLock = true → task.pc.inPipeline = false → task.site = .direct →
    new = [] ∧ s'.sleepCount = s.sleepCount
  accepted : ∀ (k : ℕ) request, new[k]? = some (.restRequest request .accepted) → k = 0 ∧
    ∃ n, Announced task.site.trigger n s.log
  standing : Standing s' task'

theorem Went.answers_eq (h : Went s s' i task task' new) {k : ℕ}
    (hk : ∀ request, task.site.request? = some request → request.number ≠ k) :
    answers k s'.log = answers k s.log := by
  rw [h.log, answers_append, answers_only h.only hk, List.append_nil]

theorem Answering.went (h : Answering s) (hx : Exclusive s) (hi : s.tasks[i]? = some task)
    (hwent : Went s s' i task task' new) : Answering s' := by
  have hgrown (k : ℕ) (hk : ∀ request, task.site.request? = some request → request.number ≠ k) :
      answers k s'.log = answers k s.log := hwent.answers_eq hk
  obtain ⟨hdone, htasks, hsite, hlog, hhandled, honly, hflags, hquiet, haccepted, hstanding⟩ :=
    hwent
  have hlt : i < s.tasks.length := (List.getElem?_eq_some_iff.1 hi).1
  have hself : s'.tasks[i]? = some task' := by
    rw [htasks, List.getElem?_set_self hlt]
  have hsites {other : Task} (hother : other ∈ s.tasks) :
    ∃ other' ∈ s'.tasks, other'.site = other.site := by
    obtain ⟨j, hj⟩ := List.getElem?_of_mem hother
    by_cases hij : i = j
    · subst hij
      rw [hi] at hj
      cases hj
      exact ⟨task', List.mem_of_getElem? hself, hsite⟩
    · refine ⟨other, List.mem_of_getElem? (i := j) ?_, rfl⟩
      rw [htasks, List.getElem?_set_ne hij, hj]
  have hback {j : ℕ} {other : Task} (hj : s'.tasks[j]? = some other) :
      ∃ before, s.tasks[j]? = some before ∧ other.site = before.site := by
    rw [htasks] at hj
    rcases getElem?_set_cases hj with ⟨-, hj⟩ | ⟨rfl, rfl⟩
    · exact ⟨other, hj, rfl⟩
    · exact ⟨task, hi, hsite⟩
  constructor
  · intro j other hj
    rw [htasks] at hj
    rcases getElem?_set_cases hj with ⟨hij, hj⟩ | ⟨-, rfl⟩
    · -- Another coroutine that owes the flag leaves only a direct call to move.
      have hdirect (request : Request) (hrequest : other.site.request? = some request)
          (hpc : other.pc ≠ .done) : task.site = .direct := by
        by_contra hne
        have howes : task.owes = true := by simp [Task.owes, hne, hdone]
        exact hij (hx.unique_owes hi hj howes (owes_of_request hrequest hpc))
      refine (h.standing j other hj).frame ?_ ?_ ?_
      · intro request hrequest
        refine hgrown _ fun request' hrequest' heq => hij ?_
        exact h.distinct i j task other request' request hi hj hrequest' hrequest heq
      · intro request hrequest
        by_cases hpc : other.pc = .done
        · exact .inl hpc
        · refine .inr (hflags ?_)
          rw [hdirect request hrequest hpc]
          rfl
      · intro pending hpc hannounced
        have hin := inPipeline_of_accepted hpc
        have hout : task.pc.inPipeline = false := by
          by_contra hne
          exact hij (hx.unique hi hj (by simpa using hne) hin)
        obtain ⟨request, hrequest⟩ : ∃ request, other.site.request? = some request := by
          cases hrequest : other.site.request? with
          | some request => exact ⟨request, rfl⟩
          | none =>
            have hanswers := (h.standing j other hj).unasked hrequest
            rw [hpc] at hanswers
            cases hanswers
        have hpc' : other.pc ≠ .done := by simp [hpc]
        obtain ⟨hnew, hcount⟩ := hquiet (hx.lock_of_inPipeline hj hin) hout
          (hdirect request hrequest hpc')
        rw [hlog, hnew, hcount, List.append_nil]
        exact hannounced
    · exact hstanding
  · intro a b first second request request' ha hb hreq hreq' heq
    obtain ⟨before, ha, hsame⟩ := hback ha
    obtain ⟨before', hb, hsame'⟩ := hback hb
    rw [hsame] at hreq
    rw [hsame'] at hreq'
    exact h.distinct a b before before' request request' ha hb hreq hreq' heq
  · intro j other request hj hreq
    obtain ⟨before, hj, hsame⟩ := hback hj
    rw [hsame] at hreq
    rw [hhandled]
    exact h.numbered j before request hj hreq
  · intro k hk
    rw [hhandled] at hk
    rw [hgrown k, h.unasked k hk]
    intro request hreq
    exact ((h.numbered i task request hi hreq).trans_le hk).ne
  · intro k hk
    rw [hhandled] at hk
    by_cases hown : ∃ request, task.site.request? = some request ∧ request.number = k
    · obtain ⟨request, hreq, hnumber⟩ := hown
      exact .inr (.inr ⟨task', List.mem_of_getElem? hself, request, hsite ▸ hreq, hnumber⟩)
    · rw [hgrown k fun request hreq hnumber => hown ⟨request, hreq, hnumber⟩]
      rcases h.refused k hk with hbusy | hsoon | ⟨other, hother, request, hreq, hnumber⟩
      · exact .inl hbusy
      · exact .inr (.inl hsoon)
      · obtain ⟨other', hother', hsame⟩ := hsites hother
        exact .inr (.inr ⟨other', hother', request, hsame ▸ hreq, hnumber⟩)
  · rw [hlog]
    refine accepted_append h.accepted (fun other hother => hsites hother) ?_
    intro k request hk
    obtain ⟨hzero, n, hannounced⟩ := haccepted k request hk
    refine ⟨hzero, task', List.mem_of_getElem? hself, ?_, n, hsite ▸ hannounced⟩
    rw [hsite]
    exact honly _ (List.mem_of_getElem? hk) request .accepted rfl

/-- What a move says to the requests. -/
inductive Told (s s' : Sleep) : Move → Prop
  | idle {m : Move} {new : List Event} (h : Idle s s' new) : Told s s' m
  | created {m : Move} {site : Site} (h : Created s s' site) : Told s s' m
  | went {i : ℕ} {task task' : Task} {outcome : Outcome} {new : List Event}
      (hi : s.tasks[i]? = some task) (h : Went s s' i task task' new) : Told s s'
      (.resume i outcome)
  | called {task' : Task} {new : List Event}
      (h : Went s.withDirect s' s.tasks.length ⟨.direct, .scheduled, 0⟩ task' new) :
      Told s s' .enterSleep

theorem created_withDirect (s : Sleep) : Created s s.withDirect .direct :=
  ⟨rfl, rfl, ⟨rfl, rfl⟩, rfl, .inl ⟨rfl, rfl⟩⟩

theorem Answering.told (h : Answering s) (hx : Exclusive s) (ht : Told s s' m) : Answering s' := by
  cases ht with
  | idle hidle => exact h.idle hidle
  | created hcreated => exact h.created hcreated
  | went hi hwent => exact h.went hx hi hwent
  | called hwent =>
    exact (h.created (created_withDirect s)).went hx.withDirect.1 (getElem?_withDirect s) hwent

/-- What does not move is not answered either. -/
theorem Answering.told_other (h : Answering s) (ht : Told s s' m) (hj : s.tasks[j]? = some task)
    (hrequest : task.site.request? = some request) (hm : ∀ outcome, m ≠ .resume j outcome) :
    s'.tasks[j]? = some task ∧ answers request.number s'.log = answers request.number s.log := by
  have hlt : j < s.tasks.length := (List.getElem?_eq_some_iff.1 hj).1
  have hnumber := h.numbered j task request hj hrequest
  cases ht with
  | idle hidle => exact ⟨hidle.tasks ▸ hj, hidle.answers_eq hnumber.ne⟩
  | created hcreated =>
    rw [hcreated.tasks, hcreated.log, List.getElem?_append_left hlt]
    exact ⟨hj, rfl⟩
  | @went i moved moved' outcome new hi hwent =>
    have hij : i ≠ j := by
      rintro rfl
      exact hm outcome rfl
    rw [hwent.tasks, List.getElem?_set_ne hij]
    refine ⟨hj, hwent.answers_eq fun request' hrequest' heq => hij ?_⟩
    exact h.distinct i j moved task request' request hi hj hrequest' hrequest heq
  | called hwent =>
    rw [hwent.tasks, List.getElem?_set_ne hlt.ne']
    refine ⟨?_, hwent.answers_eq (by simp [Site.request?])⟩
    exact (List.getElem?_append_left hlt).trans hj

end Kaine.Sleep
