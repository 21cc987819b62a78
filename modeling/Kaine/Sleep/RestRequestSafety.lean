import Kaine.Sleep.ModuleSafety
import Kaine.Sleep.RestRequests

/-! Over any run each rest request is answered once, and told of its sleep's abort, unless a cancel
falls where the coroutine of the request does not expect one. -/
namespace Kaine.Sleep

variable {config : Config} {s s' t : Sleep} {i : ℕ} {task : Task} {request : Request} {pc : Pc}
  {outcome : Outcome} {exn : Option Exn} {new : List Event} {m : Move}

/-- No cancel keeps the coroutine of a request from answering it: it starts, a requested sleep is
not cancelled, and what it publishes reaches the stream. -/
def Heard (s : Sleep) (m : Move) : Prop :=
  ∀ (i : ℕ) outcome task request, m = .resume i outcome → s.tasks[i]? = some task →
    task.site.request? = some request →
      (task.pc = .scheduled → outcome = .returned) ∧
      (task.site = .requested request → task.pc.inPipeline = true → outcome.exn ≠ some .cancelled) ∧
      (task.pc.answers = true → outcome.written = true)

theorem said_of_written {event : Event} (h : outcome.written = true) :
    said outcome event = [event] := if_pos h

/-- An event that answers no request, and accepts none. -/
theorem silent_answers {event : Event} (h : ∀ request answer, event ≠ .restRequest request answer)
    (k : ℕ) : answers k (said outcome event) = [] :=
  have honly : AnswersOnly none (said outcome event) :=
    answersOnly_said fun request answer heq => absurd heq (h request answer)
  answers_only honly (by simp)

theorem holds_requested (s : Sleep) (h : task.site = .requested request) :
    s.holds task = false := by
  simp [holds, h, Site.trigger, holdsCycleRest]

/-- The coroutine of a request runs its sleep, or finds another running. -/
theorem went_of_enters (h : Answering s) (hi : s.tasks[i]? = some task) (hpc : task.pc = .scheduled)
    {pending : Option Request} {accepted : Bool}
    (hnoted : ∀ request, task.site.request? = some request → pending = some request ∧
      accepted = false)
    (hunnoted : task.site.request? = none →
      pending = s.pendingRest ∧ accepted = s.requestedRestAccepted)
    (he : Enters { s with pendingRest := pending, requestedRestAccepted := accepted } s' i task) :
    ∃ task', Went s s' i task task' [] := by
  have hdone : task.pc ≠ .done := by simp [hpc]
  have hstanding := h.standing i task hi
  have hgiven (request : Request) (hrequest : task.site.request? = some request) :
      answers request.number s.log = [] := by
    have hstands := hstanding.answered request hrequest
    rwa [hpc] at hstands
  cases he with
  | @entered task' hfree hentered =>
    refine ⟨task', hdone, hentered.tasks, hentered.site,
      hentered.log.trans (List.append_nil _).symm, hentered.handled, by
        simp [AnswersOnly], ?_, ?_, by simp, ?_⟩
    · intro hrequest
      obtain ⟨hpending, haccepted⟩ := hunnoted hrequest
      exact ⟨hentered.pendingRest.trans hpending, hentered.requestedRestAccepted.trans haccepted⟩
    · intro hlock
      rw [show s.sleepLock = false from hfree] at hlock
      cases hlock
    · refine ⟨fun request hrequest => ?_, ?_, ?_, ?_⟩
      · rw [hentered.site] at hrequest
        rw [hentered.pc, hentered.log]
        obtain ⟨hpending, haccepted⟩ := hnoted request hrequest
        exact ⟨hgiven request hrequest, hentered.pendingRest.trans hpending,
          hentered.requestedRestAccepted.trans haccepted⟩
      · intro request _
        rw [hentered.pc]
        rfl
      · intro _
        rw [hentered.pc]
        rfl
      · intro request hpc'
        rw [hentered.pc] at hpc'
        cases hpc'
  | busy hlock hsettled =>
    refine ⟨_, hdone, hsettled.tasks, rfl, hsettled.log.trans (List.append_nil _).symm,
      hsettled.handled, by simp [AnswersOnly], ?_, ?_, by simp, ?_⟩
    · intro hrequest
      obtain ⟨hpending, haccepted⟩ := hunnoted hrequest
      have hrest := hsettled.pendingRest
      have haccept := hsettled.requestedRestAccepted
      rw [hrequest] at hrest haccept
      simp only [Option.isSome_none, Bool.false_eq_true, and_false, if_false] at hrest haccept
      exact ⟨hrest.trans hpending, haccept.trans haccepted⟩
    · exact fun _ _ _ => ⟨rfl, hsettled.sleepCount⟩
    · refine ⟨fun request hrequest => ?_, ?_, ?_, ?_⟩
      · have hbusy : afterBusyAt task.site = .answerPublish request .busy := by
          simp only [afterBusyAt]
          rw [show task.site.request? = some request from hrequest]
        rw [hsettled.log]
        simp only [hbusy]
        exact ⟨rfl, .inl ⟨hgiven request hrequest, .inl rfl⟩⟩
      · intro request hsite
        have hrequest : task.site.request? = some request := by
          rw [show task.site = .requested request from hsite]
          rfl
        simp [afterBusyAt, hrequest, Pc.cutOrHeld]
      · intro hrequest
        simp [afterBusyAt, show task.site.request? = none from hrequest, Pc.answers]
      · intro request hpc'
        rcases hsettled.awaits with hdone' | ⟨-, request', answer, hanswer⟩
        · simp [hdone'] at hpc'
        · simp [hanswer] at hpc'

/-- What a pipeline's move does to the noted request, by where it goes. -/
def Noted (s s' : Sleep) (pc : Pc) : Prop :=
  (∀ pending, pc ≠ .acceptedPublish pending) ∧ s'.pendingRest = s.pendingRest ∧
      s'.requestedRestAccepted = s.requestedRestAccepted ∨
    ∃ pending, pc = .acceptedPublish pending ∧ s.pendingRest = some pending ∧
      s'.pendingRest = none ∧ s'.requestedRestAccepted = true

theorem Noted.same (h : Noted s s' pc) (hpc : ∀ pending, pc ≠ .acceptedPublish pending) :
    s'.requestedRestAccepted = s.requestedRestAccepted := by
  rcases h with ⟨-, -, hsame⟩ | ⟨pending, hto, -⟩
  · exact hsame
  · exact absurd hto (hpc pending)

theorem onward_stands {held cut : Prop} {n : ℕ} (h : Onward n held cut pc new)
    (hflag : s'.requestedRestAccepted = true) :
    Stands s' request ([.accepted] ++ answers request.number new) pc := by
  rcases h with ⟨rfl, ⟨rfl, -⟩ | rfl | ⟨_, rfl⟩⟩ | ⟨rfl, _, rfl, -⟩ <;> exact ⟨rfl, hflag⟩

theorem onward_ne_accepted {held cut : Prop} {n : ℕ} (h : Onward n held cut pc new)
    (pending : Request) : pc ≠ .acceptedPublish pending := by
  rcases h with ⟨rfl, ⟨rfl, -⟩ | rfl | ⟨_, rfl⟩⟩ | ⟨rfl, _, rfl, -⟩ <;> simp

/-- A request's answers keep up with the control flow of its sleep. -/
theorem stands_of_goes {pc' : Pc} {given : List Answer} (hg : Goes s task pc outcome pc' new)
    (hrequest : task.site.request? = some request) (hs : Stands s request given pc)
    (hwritten : pc.answers = true → outcome.written = true) (hnoted : Noted s s' pc') :
    Stands s' request (given ++ answers request.number new) pc' := by
  cases hg with
  | started haccepts =>
    obtain ⟨rfl, hpending, -⟩ := hs
    have hnone : answers request.number [s.startedEvent task] = [] := rfl
    rw [hnone]
    rcases haccepts with ⟨-, hunasked | hunnoted⟩ | ⟨pending, rfl, hsome, -⟩
    · rw [hunasked] at hrequest
      cases hrequest
    · rw [hunnoted] at hpending
      cases hpending
    · rw [hsome] at hpending
      rcases hnoted with ⟨hne, -⟩ | ⟨_, _, _, _, hflag⟩
      · exact absurd rfl (hne pending)
      · exact ⟨Option.some.inj hpending, rfl, hflag⟩
  | unstarted resumable =>
    obtain ⟨rfl, -, hflag⟩ := hs
    rw [silent_answers (by simp [startedEvent])]
    simp only [Stands, hnoted.same (by simp), hflag]
    rfl
  | accepted =>
    obtain ⟨rfl, rfl, hflag⟩ := hs
    rw [said_of_written (hwritten rfl)]
    exact ⟨by simp [answers, Event.answer?], (hnoted.same (by simp)).trans hflag⟩
  | acceptedCut resumable =>
    obtain ⟨rfl, rfl, hflag⟩ := hs
    rw [said_of_written (hwritten rfl)]
    simp [Stands, hnoted.same (by simp), hflag, answers, Event.answer?]
  | body hpc honward =>
    obtain ⟨rfl, hflag⟩ : given = [.accepted] ∧ s.requestedRestAccepted = true := by
      rcases hpc with rfl | rfl | ⟨_, rfl⟩ <;> exact hs
    exact onward_stands honward ((hnoted.same (onward_ne_accepted honward)).trans hflag)
  | resetDone | audited =>
    obtain ⟨rfl, hflag⟩ := hs
    exact ⟨rfl, (hnoted.same (by simp)).trans hflag⟩
  | resetRaised | auditCut =>
    obtain ⟨rfl, hflag⟩ := hs
    simp [Stands, hnoted.same (by simp), hflag, answers]
  | uncompleted resumable =>
    obtain ⟨rfl, hflag⟩ := hs
    rw [silent_answers (by simp)]
    simp [Stands, hnoted.same (by simp), hflag]

/-- A requested sleep that is not cancelled neither holds nor ends as cancelled. -/
theorem uncut_of_goes {pc' : Pc} (hg : Goes s task pc outcome pc' new)
    (hsite : task.site = .requested request) (hpc : pc.cutOrHeld = false)
    (hcancel : outcome.exn ≠ some .cancelled) : pc'.cutOrHeld = false := by
  have hholds := holds_requested s hsite
  cases hg with
  | started haccepts => rcases haccepts with ⟨rfl, -⟩ | ⟨_, rfl, -⟩ <;> rfl
  | @unstarted _ exn resumable hexn =>
    refine decide_eq_false ?_
    rintro rfl
    exact hcancel hexn
  | accepted | resetDone | audited => rfl
  | acceptedCut _ hexn | auditCut _ hexn => exact absurd hexn hcancel
  | body _ honward =>
    have hheld : ¬ (s.holds task = true ∨ pc = .holding) := by
      rintro (hheld | rfl)
      · rw [hholds] at hheld
        cases hheld
      · cases hpc
    rcases honward with ⟨rfl, ⟨-, hh⟩ | rfl | ⟨_, rfl⟩⟩ | ⟨rfl, exn, rfl, hcut⟩
    · exact absurd hh hheld
    · rfl
    · rfl
    · refine decide_eq_false fun hexn => ?_
      rcases hcut hexn with hcut | ⟨-, hcut⟩
      · exact hcancel hcut
      · exact hheld hcut
  | resetRaised exn resumable hexn =>
    refine decide_eq_false ?_
    rintro rfl
    rcases hexn with hexn | rfl
    · exact hcancel hexn
    · cases hpc
  | @uncompleted _ exn resumable hexn =>
    refine decide_eq_false ?_
    rintro rfl
    exact hcancel hexn

/-- A pipeline's move answers the request of its own coroutine only. -/
theorem answersOnly_of_goes (hs : Standing s task) {pc' : Pc}
    (hg : Goes s task task.pc outcome pc' new) : AnswersOnly task.site.request? new := by
  have hpending {pending : Request} (hpc : task.pc = .acceptedPublish pending) :
      task.site.request? = some pending := by
    cases hrequest : task.site.request? with
    | none =>
      have hanswers := hs.unasked hrequest
      rw [hpc] at hanswers
      cases hanswers
    | some request =>
      have hstands := hs.answered request hrequest
      rw [hpc] at hstands
      rw [hstands.1]
  generalize hfrom : task.pc = pc at hg
  cases hg with
  | started => simp [AnswersOnly, startedEvent]
  | unstarted => exact answersOnly_said (by simp [startedEvent])
  | accepted | acceptedCut =>
    refine answersOnly_said fun request answer heq => ?_
    cases heq
    exact hpending hfrom
  | body _ honward => rcases honward with ⟨rfl, -⟩ | ⟨rfl, -⟩ <;> simp [AnswersOnly]
  | resetDone | resetRaised | audited | auditCut => simp [AnswersOnly]
  | uncompleted => exact answersOnly_said (by simp)

/-- An acceptance is all that its move logs, and the start of the sleep stands before it. -/
theorem accepted_of_goes (hs : Standing s task) {pc' : Pc}
    (hg : Goes s task task.pc outcome pc' new) (k : ℕ) (request : Request)
    (h : new[k]? = some (.restRequest request .accepted)) :
    k = 0 ∧ ∃ n, Announced task.site.trigger n s.log := by
  have hmem := List.mem_of_getElem? h
  have hsaid {event : Event} (h : (said outcome event)[k]? =
      some (.restRequest request .accepted)) : k = 0 := by
    have hle : (said outcome event).length ≤ 1 := by
      unfold said
      split <;> simp
    have hlt := (List.getElem?_eq_some_iff.1 h).1
    omega
  generalize hfrom : task.pc = pc at hg
  cases hg with
  | started => simp [startedEvent] at hmem
  | unstarted | uncompleted =>
    unfold said at hmem
    split at hmem <;> simp [startedEvent] at hmem
  | @accepted pending | @acceptedCut pending =>
    exact ⟨hsaid h, s.sleepCount, hs.announced _ hfrom⟩
  | body _ honward => rcases honward with ⟨rfl, -⟩ | ⟨rfl, -⟩ <;> simp at hmem
  | resetDone | resetRaised | audited | auditCut => simp at hmem

/-- A sleep without a request neither accepts nor answers. -/
theorem unasked_of_goes {pc' : Pc} (hg : Goes s task pc outcome pc' new)
    (h : task.site.request? = none) : pc'.answers = false := by
  cases hg with
  | started haccepts =>
    rcases haccepts with ⟨rfl, -⟩ | ⟨_, rfl, -, htrigger⟩
    · rfl
    · exact absurd h (request_of_trigger htrigger)
  | body _ honward =>
    rcases honward with ⟨rfl, ⟨rfl, -⟩ | rfl | ⟨_, rfl⟩⟩ | ⟨rfl, _, rfl, -⟩ <;> rfl
  | _ => rfl

theorem announced_of_goes {pc' : Pc} {pending : Request} (hg : Goes s task pc outcome pc' new)
    (h : pc' = .acceptedPublish pending) :
    Announced task.site.trigger s.sleepCount (s.log ++ new) := by
  cases hg with
  | started => exact announced_start s.log task.site.trigger s.sleepCount _
  | body _ honward => exact absurd h (onward_ne_accepted honward pending)
  | _ => cases h

theorem went_of_within (h : Answering s) (hi : s.tasks[i]? = some task)
    (hin : task.pc.inPipeline = true) (hheard : ∀ request, task.site.request? = some request →
      (task.site = .requested request → outcome.exn ≠ some .cancelled) ∧
        (task.pc.answers = true → outcome.written = true))
    (hw : Within s s' i task pc new) (hg : Goes s task task.pc outcome pc new) :
    Went s s' i task { task with pc := pc } new := by
  have hstanding := h.standing i task hi
  have hout : ¬ (task.pc.inPipeline = false) := by simp [hin]
  refine ⟨ne_done_of_inPipeline hin, hw.tasks, rfl, hw.log, hw.handled,
    answersOnly_of_goes hstanding hg, ?_, fun _ hne => absurd hne hout,
    accepted_of_goes hstanding hg, ?_⟩
  · intro hrequest
    rcases hw.accepts with ⟨-, hpending, haccepted⟩ | ⟨pending, rfl, -⟩
    · exact ⟨hpending, haccepted⟩
    · cases unasked_of_goes hg hrequest
  · refine ⟨fun request hrequest => ?_, fun request hsite => ?_, ?_, ?_⟩
    · rw [hw.log, answers_append]
      exact stands_of_goes hg hrequest (hstanding.answered request hrequest)
        (hheard request hrequest).2 hw.accepts
    · have hrequest : task.site.request? = some request := by
        rw [show task.site = .requested request from hsite]
        rfl
      exact uncut_of_goes hg hsite (hstanding.uncut request hsite)
        ((hheard request hrequest).1 hsite)
    · exact fun hrequest => unasked_of_goes hg hrequest
    · intro pending hpc
      rw [hw.log, hw.sleepCount]
      have hannounced := announced_of_goes hg hpc
      exact hannounced

/-- The last publish of a sleep answers nothing. -/
theorem published_silent (s : Sleep) (task : Task) (outcome : Outcome) : ∃ new shielded,
    s.published task outcome = { s with log := s.log ++ new, shieldedPublishes := shielded } ∧
      ∀ event ∈ new, ∃ n exn resumable, event = .completed n exn resumable := by
  unfold published
  split
  · rename_i exn resumable _
    exact ⟨[], s.shieldedPublishes ++ [.completed s.sleepCount (some exn) resumable],
      by rw [List.append_nil], by simp⟩
  · rw [written_eq]
    refine ⟨_, s.shieldedPublishes, rfl, fun event hevent => ?_⟩
    unfold said at hevent
    split at hevent
    · rw [List.mem_singleton.1 hevent]
      exact ⟨_, _, _, rfl⟩
    · cases hevent
  · refine ⟨_, s.shieldedPublishes, rfl, fun event hevent => ?_⟩
    rw [List.mem_singleton.1 hevent]
    exact ⟨_, _, _, rfl⟩

/-- The coroutine of a request whose sleep has raised answers the request. -/
theorem afterSleepAt_raised {exn : Exn} (accepted : Bool)
    (hrequest : task.site.request? = some request)
    (hcancel : task.site = .requested request → exn ≠ .cancelled) : ∃ answer,
    afterSleepAt accepted task.site (some exn) = .answerPublish request answer ∧
      (accepted = true → answer = .aborted) ∧
      (accepted = false → answer = .busy ∨ answer = .failed) := by
  cases hsite : task.site with
  | requested request' =>
    rw [hsite] at hrequest
    cases hrequest
    cases exn with
    | failure => cases accepted <;> exact ⟨_, rfl, by simp, by simp⟩
    | cancelled => exact absurd rfl (hcancel hsite)
  | welfare request' =>
    rw [hsite] at hrequest
    cases hrequest
    cases accepted <;> exact ⟨_, rfl, by simp, by simp⟩
  | fatigueTriggered _ | stateCycle | interval | direct =>
    rw [hsite] at hrequest
    cases hrequest

theorem afterSleepAt_returned (accepted : Bool) (site : Site) :
    afterSleepAt accepted site none = .done := by
  cases site <;> rfl

theorem afterSleepAt_unasked {accepted : Bool} {site : Site} (h : site.request? = none) :
    afterSleepAt accepted site exn = .done := by
  cases site with
  | requested request | welfare request => cases h
  | fatigueTriggered _ | stateCycle | interval | direct => rfl

theorem uncut_of_leaves (hl : Leaves pc outcome exn) (hpc : pc.cutOrHeld = false)
    (hcancel : outcome.exn ≠ some .cancelled) : exn ≠ some .cancelled := by
  cases hl with
  | completed => simp
  | aborted =>
    rintro hexn
    cases hexn
    cases hpc
  | cut => exact absurd rfl hcancel

/-- Where the coroutine of a request goes on after its sleep. -/
theorem stands_of_leaves {given : List Answer} (hs : Stands s request given pc)
    (hrequest : task.site.request? = some request) (hl : Leaves pc outcome exn)
    (hcancel : task.site = .requested request → exn ≠ some .cancelled) :
    Stands s' request given (afterSleepAt s.requestedRestAccepted task.site exn) := by
  cases exn with
  | none =>
    rw [afterSleepAt_returned]
    cases hl with
    | completed =>
      obtain ⟨rfl, -⟩ := hs
      exact .inr (.inr (.inl rfl))
  | some exn =>
    obtain ⟨answer, hto, haborted, hrefused⟩ := afterSleepAt_raised s.requestedRestAccepted hrequest
      fun hsite hexn => hcancel hsite (congrArg some hexn)
    have hgiven : given = if s.requestedRestAccepted then [.accepted] else [] := by
      cases hl <;> exact hs
    rw [hto]
    cases haccepted : s.requestedRestAccepted with
    | true => exact ⟨rfl, .inr ⟨by rw [hgiven, if_pos haccepted], haborted haccepted⟩⟩
    | false =>
      refine ⟨rfl, .inl ⟨?_, hrefused haccepted⟩⟩
      rw [hgiven, haccepted]
      rfl

theorem went_of_left (h : Answering s) (hi : s.tasks[i]? = some task)
    (hin : task.pc.inPipeline = true) (hleaves : Leaves task.pc outcome exn)
    (hheard : ∀ request, task.site = .requested request → outcome.exn ≠ some .cancelled)
    (hl : Left (s.published task outcome) s' i task
      (afterSleepAt s.requestedRestAccepted task.site exn)) :
    ∃ new, Went s s' i task
        { task with pc := afterSleepAt s.requestedRestAccepted task.site exn } new ∧
      ∀ k, answers k new = [] := by
  have hstanding := h.standing i task hi
  obtain ⟨new, shielded, hpublished, hnew⟩ := published_silent s task outcome
  rw [hpublished] at hl
  have hunaccepted (request : Request) (answer : Answer)
      (hmem : .restRequest request answer ∈ new) : False := by
    obtain ⟨n, exn, resumable, heq⟩ := hnew _ hmem
    cases heq
  have honly : AnswersOnly task.site.request? new := by
    rintro event hevent request answer rfl
    exact (hunaccepted request answer hevent).elim
  have hnone (k : ℕ) : answers k new = [] := by
    refine List.filterMap_eq_nil_iff.2 fun event hevent => ?_
    obtain ⟨n, exn, resumable, rfl⟩ := hnew event hevent
    rfl
  refine ⟨new, ⟨ne_done_of_inPipeline hin, hl.tasks, rfl, hl.log, hl.handled, honly, ?_,
    ?_, ?_, ?_⟩, hnone⟩
  · intro hrequest
    have hpending := hl.pendingRest
    have haccepted := hl.requestedRestAccepted
    rw [hrequest] at hpending haccepted
    simp only [Option.isSome_none, Bool.false_eq_true, and_false, if_false] at hpending haccepted
    exact ⟨hpending, haccepted⟩
  · intro _ hout
    rw [hin] at hout
    cases hout
  · intro k request hk
    exact (hunaccepted request .accepted (List.mem_of_getElem? hk)).elim
  · have huncut (request : Request) (hsite : task.site = .requested request) :=
      uncut_of_leaves hleaves (hstanding.uncut request hsite) (hheard request hsite)
    refine ⟨fun request hrequest => ?_, ?_, ?_, ?_⟩
    · rw [hl.log]
      change Stands s' request (answers request.number (s.log ++ new)) _
      rw [answers_append, hnone, List.append_nil]
      exact stands_of_leaves (hstanding.answered request hrequest) hrequest hleaves (huncut request)
    · intro request hsite
      rcases hl.awaits with hdone | ⟨-, request', answer, hto⟩
      · simp only [hdone]
        rfl
      · simp only [hto]
        rfl
    · intro hrequest
      simp only [afterSleepAt_unasked (show task.site.request? = none from hrequest)]
      rfl
    · intro pending hpc
      rcases hl.awaits with hdone | ⟨-, request', answer, hto⟩
      · simp [hdone] at hpc
      · simp [hto] at hpc

theorem went_of_answered (h : Answering s) (hi : s.tasks[i]? = some task) {answer : Answer}
    (hpc : task.pc = .answerPublish request answer)
    (hheard : ∀ request, task.site.request? = some request → outcome.written = true)
    (hs : Settled (s.written outcome (.restRequest request answer)) s' i task .done) :
    Went s s' i task { task with pc := .done } [.restRequest request answer] := by
  have hstanding := h.standing i task hi
  obtain ⟨asked, hrequest⟩ : ∃ asked, task.site.request? = some asked := by
    cases hrequest : task.site.request? with
    | some asked => exact ⟨asked, rfl⟩
    | none =>
      have hanswers := hstanding.unasked hrequest
      rw [hpc] at hanswers
      cases hanswers
  rw [written_eq, said_of_written (hheard asked hrequest)] at hs
  have hstands := hstanding.answered asked hrequest
  rw [hpc] at hstands
  obtain ⟨rfl, hgiven⟩ := hstands
  have hne : answer ≠ .accepted := by rcases hgiven with ⟨-, rfl | rfl⟩ | ⟨-, rfl⟩ <;> simp
  refine ⟨by simp [hpc], hs.tasks, rfl, hs.log, hs.handled, ?_, ?_, ?_, ?_, ?_⟩
  · intro event hevent request' answer' heq
    rw [List.mem_singleton.1 hevent] at heq
    cases heq
    exact hrequest
  · intro hnone
    rw [hrequest] at hnone
    cases hnone
  · exact fun _ _ hdirect => absurd hdirect (ne_direct_of_request hrequest)
  · intro k request' hk
    have hmem := List.mem_of_getElem? hk
    simp [Ne.symm hne] at hmem
  · refine ⟨fun request' hrequest' => ?_, fun _ _ => rfl, fun _ => rfl, ?_⟩
    · have hsame : some request = some request' := hrequest.symm.trans hrequest'
      cases hsame
      rw [hs.log]
      change Stands s' request (answers request.number (s.log ++ [_])) .done
      rw [answers_append]
      have hone : answers request.number [.restRequest request answer] = [answer] := by
        simp [answers, Event.answer?]
      rw [hone]
      rcases hgiven with ⟨hnil, rfl | rfl⟩ | ⟨haccepted, rfl⟩
      · exact .inl (by rw [hnil]; rfl)
      · exact .inr (.inl (by rw [hnil]; rfl))
      · exact .inr (.inr (.inr (by rw [haccepted]; rfl)))
    · intro pending hpc'
      cases hpc'

theorem told_of_outside (ho : Outside s s') : Told s s' m := by
  have hflags := And.intro ho.pendingRest ho.requestedRestAccepted
  cases ho.does with
  | nothing htasks _ hlog hhandled =>
    exact .idle ⟨htasks, hlog.trans (List.append_nil _).symm, hflags, ho.sleepCount, by simp,
      .inl ⟨fun _ => rfl, hhandled⟩⟩
  | schedules site _ _ htasks _ hlog hrequest =>
    exact .created ⟨htasks, hlog, hflags, ho.sleepCount, hrequest⟩
  | refuses request hanswer hnumber htasks _ hlog hhandled =>
    refine .idle ⟨htasks, hlog, hflags, ho.sleepCount, ?_,
      .inr ⟨request, _, rfl, hanswer, hnumber, hhandled⟩⟩
    intro _ _ _ event hevent
    rw [List.mem_singleton.1 hevent]
    exact hanswer

/-- What is still under a shield is the end of a sleep that is over. -/
def Shielded (s : Sleep) : Prop :=
  ∀ event ∈ s.shieldedPublishes, ∃ n exn resumable, event = .completed n exn resumable ∧
    n ≤ s.sleepCount ∧ (s.sleepLock = true → n < s.sleepCount)

theorem Shielded.of_eq (h : Shielded s) (hshielded : s'.shieldedPublishes = s.shieldedPublishes)
    (hcount : s'.sleepCount = s.sleepCount) (hlock : s'.sleepLock = s.sleepLock) : Shielded s' := by
  unfold Shielded
  rw [hshielded, hcount, hlock]
  exact h

theorem Shielded.enters (h : Shielded s) (he : Enters s s' i task) : Shielded s' := by
  cases he with
  | entered hfree hentered =>
    unfold Shielded
    rw [hentered.shieldedPublishes, hentered.sleepCount]
    intro event hevent
    obtain ⟨n, exn, resumable, heq, hle, -⟩ := h event hevent
    exact ⟨n, exn, resumable, heq, by omega, fun _ => by omega⟩
  | busy hlock hsettled =>
    exact h.of_eq hsettled.shieldedPublishes hsettled.sleepCount hsettled.sleepLock

theorem Shielded.moved (h : Shielded s) (hm : Moved s s' m) : Shielded s' := by
  cases hm with
  | outside ho _ => exact h.of_eq ho.shieldedPublishes ho.sleepCount ho.sleepLock
  | direct he =>
    have hdirect : Shielded s.withDirect := h
    exact hdirect.enters he
  | @begun i task _ _ he =>
    obtain ⟨pending, accepted, hnoted, -⟩ := noteRequest_eq s task
    rw [hnoted] at he
    have hstate : Shielded { s with pendingRest := pending, requestedRestAccepted := accepted } := h
    exact hstate.enters he
  | dropped _ _ hdropped =>
    subst hdropped
    exact h
  | within _ _ hwithin =>
    exact h.of_eq hwithin.shieldedPublishes hwithin.sleepCount hwithin.sleepLock
  | @left i task outcome exn hi hin hleaves hl =>
    intro event hevent
    rw [hl.shieldedPublishes] at hevent
    have hcount : s'.sleepCount = s.sleepCount := by
      obtain ⟨log, shielded, hpublished⟩ := published_eq s task outcome
      rw [hl.sleepCount, hpublished]
    rw [hcount, hl.sleepLock]
    have hold : event ∈ s.shieldedPublishes ∨
        ∃ exn resumable, event = .completed s.sleepCount (some exn) resumable := by
      unfold published at hevent
      split at hevent
      · rcases List.mem_append.1 hevent with hold | hnew
        · exact .inl hold
        · exact .inr ⟨_, _, List.mem_singleton.1 hnew⟩
      · rw [written_eq] at hevent
        exact .inl hevent
      · exact .inl hevent
    rcases hold with hold | ⟨exn, resumable, rfl⟩
    · obtain ⟨n, exn, resumable, heq, hle, -⟩ := h event hold
      exact ⟨n, exn, resumable, heq, hle, by simp⟩
    · exact ⟨_, _, _, rfl, le_rfl, by simp⟩
  | answered _ _ hsettled =>
    rw [written_eq] at hsettled
    exact h.of_eq hsettled.shieldedPublishes hsettled.sleepCount hsettled.sleepLock
  | @shielded written event rest hshielded hnext =>
    have hrest : ∀ event ∈ rest, event ∈ s.shieldedPublishes := by
      intro event hevent
      rw [hshielded]
      exact List.mem_cons_of_mem _ hevent
    subst hnext
    split <;> exact fun event hevent => h event (hrest event hevent)

/-- A requested sleep in its pipeline is not cancelled. -/
theorem Heard.not_cancelled (h : Heard s (.resume i outcome)) (hi : s.tasks[i]? = some task)
    (hin : task.pc.inPipeline = true) (request : Request)
    (hsite : task.site = .requested request) : outcome.exn ≠ some .cancelled := by
  have hrequest : task.site.request? = some request := by
    rw [hsite]
    rfl
  exact (h i outcome task request rfl hi hrequest).2.1 hsite hin

theorem told_of_moved (h : Answering s) (hx : Exclusive s) (hshielded : Shielded s)
    (hm : Moved s s' m) (hheard : Heard s m) : Told s s' m := by
  cases hm with
  | outside ho _ => exact told_of_outside ho
  | direct he =>
    obtain ⟨task', hwent⟩ :=
      went_of_enters (h.created (created_withDirect s)) (getElem?_withDirect s) rfl
      (by simp [Site.request?]) (fun _ => ⟨rfl, rfl⟩) he
    exact .called hwent
  | @begun i task hi hpc he =>
    obtain ⟨pending, accepted, hnoted, hasked, hunasked⟩ := noteRequest_eq s task
    rw [hnoted] at he
    obtain ⟨task', hwent⟩ := went_of_enters h hi hpc hasked hunasked he
    exact .went hi hwent
  | @dropped i task written hi hpc hdropped =>
    have hrequest : task.site.request? = none := by
      cases hrequest : task.site.request? with
      | none => rfl
      | some request =>
        have hreturned := (hheard i _ task request rfl hi hrequest).1 hpc
        cases hreturned
    subst hdropped
    refine .went hi ⟨by simp [hpc], rfl, rfl, (List.append_nil _).symm, rfl, by simp [AnswersOnly],
      fun _ => ⟨rfl, rfl⟩, fun _ _ _ => ⟨rfl, rfl⟩, by simp, ?_⟩
    refine ⟨fun request hsome => ?_, fun _ _ => rfl, fun _ => rfl, ?_⟩
    · rw [show task.site.request? = some request from hsome] at hrequest
      cases hrequest
    · intro pending hto
      cases hto
  | @within i task outcome pc new hi hin hwithin hgoes =>
    refine .went hi (went_of_within h hi hin (fun request hrequest => ?_) hwithin hgoes)
    obtain ⟨-, hcancel, hwritten⟩ := hheard i outcome task request rfl hi hrequest
    exact ⟨fun hsite => hcancel hsite hin, hwritten⟩
  | @left i task outcome exn hi hin hleaves hl =>
    obtain ⟨new, hwent, -⟩ := went_of_left h hi hin hleaves (hheard.not_cancelled hi hin) hl
    exact .went hi hwent
  | @answered i task outcome request answer hi hpc hsettled =>
    refine .went hi (went_of_answered h hi hpc (fun asked hrequest => ?_) hsettled)
    refine (hheard i outcome task asked rfl hi hrequest).2.2 ?_
    rw [hpc]
    rfl
  | @shielded written event rest hevent hnext =>
    have hmem : event ∈ s.shieldedPublishes := by
      rw [hevent]
      exact List.mem_cons_self
    obtain ⟨n, exn, resumable, rfl, -, hlt⟩ := hshielded event hmem
    subst hnext
    split
    · refine .idle ⟨rfl, rfl, ⟨rfl, rfl⟩, rfl, ?_, .inl ⟨fun _ => rfl, rfl⟩⟩
      intro task htask hin event hevent
      obtain ⟨j, hj⟩ := List.getElem?_of_mem htask
      rw [List.mem_singleton.1 hevent]
      exact hlt (hx.lock_of_inPipeline hj hin)
    · exact .idle ⟨rfl, (List.append_nil _).symm, ⟨rfl, rfl⟩, rfl, by simp,
        .inl ⟨fun _ => rfl, rfl⟩⟩

/-- The coroutine of a request has given all its answers, or is at the last of them. -/
def Due (s : Sleep) (i : ℕ) (request : Request) (final : List Answer) : Prop :=
  ∃ task, s.tasks[i]? = some task ∧ task.site.request? = some request ∧
    (task.pc = .done ∧ answers request.number s.log = final ∨
      ∃ answer, task.pc = .answerPublish request answer ∧
        final = answers request.number s.log ++ [answer])

theorem Due.moved {final : List Answer} (h : Due s i request final) (ha : Answering s)
    (hx : Exclusive s) (hshielded : Shielded s) (hm : Moved s s' m) (hheard : Heard s m) :
    Due s' i request final := by
  obtain ⟨task, hi, hrequest, hdue⟩ := h
  by_cases hself : ∃ outcome, m = .resume i outcome
  · obtain ⟨outcome, rfl⟩ := hself
    have hout : task.pc.inPipeline = false ∧ task.pc ≠ .scheduled := by
      rcases hdue with ⟨hpc, -⟩ | ⟨answer, hpc, -⟩ <;> simp [hpc, Pc.inPipeline]
    have hsame {other : Task} (hother : s.tasks[i]? = some other) : other = task := by
      rw [hi] at hother
      exact (Option.some.inj hother).symm
    cases hm with
    | outside _ hne => exact absurd rfl (hne i outcome)
    | begun hi' hpc | dropped hi' hpc =>
      obtain rfl := hsame hi'
      exact absurd hpc hout.2
    | within hi' hin | left hi' hin =>
      obtain rfl := hsame hi'
      rw [hout.1] at hin
      cases hin
    | @answered _ other _ asked answer hi' hpc hsettled =>
      obtain rfl := hsame hi'
      have hwritten := (hheard i outcome other request rfl hi hrequest).2.2 (by rw [hpc]; rfl)
      have hwent := went_of_answered ha hi hpc (fun _ _ => hwritten) hsettled
      rcases hdue with ⟨hdone, -⟩ | ⟨answer', hpc', hfinal⟩
      · simp [hdone] at hpc
      · rw [hpc] at hpc'
        cases hpc'
        refine ⟨{ other with pc := .done }, ?_, hrequest, .inl ⟨rfl, ?_⟩⟩
        · rw [hwent.tasks, List.getElem?_set_self (List.getElem?_eq_some_iff.1 hi).1]
        · rw [hwent.log, answers_append, hfinal]
          simp [answers, Event.answer?]
  · have ht := told_of_moved ha hx hshielded hm hheard
    obtain ⟨hi', hanswers⟩ := ha.told_other ht hi hrequest fun outcome heq => hself ⟨outcome, heq⟩
    refine ⟨task, hi', hrequest, ?_⟩
    rw [hanswers]
    exact hdue

theorem leaves_unique {exn' : Option Exn} (h : Leaves pc outcome exn)
    (h' : Leaves pc outcome exn') : exn = exn' := by
  cases h with
  | completed =>
    cases h'
    rfl
  | aborted hexn =>
    cases h' with
    | aborted => rfl
    | cut => exact absurd rfl hexn
  | cut =>
    cases h' with
    | aborted hexn => exact absurd rfl hexn
    | cut => rfl

theorem not_goes_of_leaves {pc' : Pc} (h : Leaves pc outcome exn)
    (hg : Goes s task pc outcome pc' new) : False := by
  cases h with
  | completed =>
    cases hg with
    | body hpc => simp at hpc
    | uncompleted _ hexn => cases hexn
  | aborted | cut =>
    cases hg with
    | body hpc => simp at hpc

/-- A request that was accepted is due nothing more when its sleep completes, and one word more when
not. -/
theorem due_of_leaves (ha : Answering s) (hi : s.tasks[i]? = some task)
    (hrequest : task.site.request? = some request)
    (haccepted : .accepted ∈ answers request.number s.log)
    (hleaves : Leaves task.pc outcome exn) (hm : Moved s s' (.resume i outcome))
    (hheard : Heard s (.resume i outcome)) :
    Due s' i request (if exn = none then [.accepted] else [.accepted, .aborted]) := by
  have hstands := (ha.standing i task hi).answered request hrequest
  have hin : task.pc.inPipeline = true := by
    generalize task.pc = pc at hleaves
    cases hleaves <;> rfl
  have hgiven : answers request.number s.log = [.accepted] ∧ s.requestedRestAccepted = true := by
    generalize hpc : task.pc = pc at hleaves hstands
    have habort {given : List Answer} (hstands : given = if s.requestedRestAccepted then [.accepted]
        else []) (hmem : .accepted ∈ given) : given = [.accepted] ∧
          s.requestedRestAccepted = true := by
      cases hflag : s.requestedRestAccepted with
      | true => exact ⟨by rw [hstands, if_pos hflag], rfl⟩
      | false =>
        rw [hstands, hflag] at hmem
        cases hmem
    cases hleaves with
    | completed => exact hstands
    | aborted | cut => exact habort hstands haccepted
  have hcancel := hheard.not_cancelled hi hin
  have hsame {other : Task} (hother : s.tasks[i]? = some other) : other = task := by
    rw [hi] at hother
    exact (Option.some.inj hother).symm
  cases hm with
  | outside _ hne => exact absurd rfl (hne i outcome)
  | begun hi' hpc | dropped hi' hpc | answered hi' hpc =>
    obtain rfl := hsame hi'
    simp [hpc, Pc.inPipeline] at hin
  | within hi' _ _ hgoes =>
    obtain rfl := hsame hi'
    exact (not_goes_of_leaves hleaves hgoes).elim
  | @left _ other _ exn' hi' _ hleaves' hl =>
    obtain rfl := hsame hi'
    obtain rfl := leaves_unique hleaves hleaves'
    obtain ⟨new, hwent, hnone⟩ := went_of_left ha hi hin hleaves hcancel hl
    have hself := hwent.tasks ▸ List.getElem?_set_self (List.getElem?_eq_some_iff.1 hi).1
    have hanswers : answers request.number s'.log = [.accepted] := by
      rw [hwent.log, answers_append, hnone, hgiven.1]
      rfl
    refine ⟨_, hself, hrequest, ?_⟩
    cases exn with
    | none => exact .inl ⟨afterSleepAt_returned _ _, hanswers⟩
    | some exn =>
      have hcut := uncut_of_leaves hleaves
      obtain ⟨answer, hto, haborted, -⟩ := afterSleepAt_raised s.requestedRestAccepted hrequest
        fun hsite hexn => hcut ((ha.standing i other hi).uncut request hsite)
          (hcancel request hsite) (congrArg some hexn)
      refine .inr ⟨answer, hto, ?_⟩
      rw [hanswers, haborted hgiven.2]
      rfl

/-- One first answer, and after an acceptance at most the word that the sleep was aborted. -/
def AnsweredOnce (given : List Answer) : Prop :=
  (∃ first, given = [first] ∧ first ≠ .aborted) ∨ given = [.accepted, .aborted]

/-- What stands over any run about the requests. -/
structure Attended (s : Sleep) : Prop where
  exclusive : Exclusive s
  shielded : Shielded s
  answering : Answering s

theorem attended_initial (config : Config) (now paused : ℚ) (desired : PerceptionState.Desired)
    (driveScales : List (Option ℚ)) (awaits : Bool) :
    Attended (initial config now paused desired driveScales awaits) :=
  ⟨(fresh_initial config now paused desired driveScales awaits).exclusive, by
    simp [Shielded, initial], ⟨by simp [initial], by simp [initial], by simp [initial],
      fun _ _ => rfl, by simp [initial], by simp [initial]⟩⟩

theorem Attended.step (h : Attended s) (hs : Transition.Guarded Heard (Steps config) s m s') :
    Attended s' := by
  have hm := moved_of_step hs.2
  have htold := told_of_moved h.answering h.exclusive h.shielded hm hs.1
  exact ⟨(h.exclusive.moved hm).1, h.shielded.moved hm, h.answering.told h.exclusive htold⟩

open Transition in
theorem Attended.run {ms : List Move} (h : Attended s)
    (hrun : Run (Guarded Heard (Steps config)) s ms s') : Attended s' :=
  hrun.invariant (fun hs hP => hP.step hs) h

open Transition in
theorem Due.run {ms : List Move} {final : List Answer} (h : Due s i request final) (ha : Attended s)
    (hrun : Run (Guarded Heard (Steps config)) s ms s') : Due s' i request final := by
  have hboth : Attended s' ∧ Due s' i request final := by
    refine hrun.invariant (P := fun t => Attended t ∧ Due t i request final) ?_ ⟨ha, h⟩
    rintro t m t' hs ⟨ht, hdue⟩
    exact ⟨ht.step hs, hdue.moved ht.answering ht.exclusive ht.shielded (moved_of_step hs.2) hs.1⟩
  exact hboth.2

/-- A coroutine that is not done has given no answer, or has accepted. -/
theorem answers_of_stands {given : List Answer} (h : Stands s request given pc) :
    AnsweredOnce given ∧ pc = .done ∨ pc ≠ .done ∧ (given = [] ∨ given = [.accepted]) := by
  cases pc with
  | done =>
    left
    refine ⟨?_, rfl⟩
    rcases h with rfl | rfl | rfl | rfl
    · exact .inl ⟨.busy, rfl, by simp⟩
    · exact .inl ⟨.failed, rfl, by simp⟩
    · exact .inl ⟨.accepted, rfl, by simp⟩
    · exact .inr rfl
  | scheduled => exact .inr ⟨by simp, .inl h⟩
  | startedPublish => exact .inr ⟨by simp, .inl h.1⟩
  | acceptedPublish pending => exact .inr ⟨by simp, .inl h.2.1⟩
  | abortPublish exn resumable =>
    refine .inr ⟨by simp, ?_⟩
    have hgiven : given = if s.requestedRestAccepted then [.accepted] else [] := h
    cases haccepted : s.requestedRestAccepted <;> simp [hgiven, haccepted]
  | answerPublish pending answer =>
    refine .inr ⟨by simp, ?_⟩
    rcases h.2 with ⟨hgiven, -⟩ | ⟨hgiven, -⟩
    · exact .inl hgiven
    · exact .inr hgiven
  | phase _ | holding | housekeeping | reset _ | audit | completedPublish =>
    exact .inr ⟨by simp, .inr h.1⟩

open Transition in
/-- Over any run in which no cancel keeps a request's coroutine from answering: each request handled
has one first answer once its coroutine is done, an acceptance comes after the start of the sleep,
and the word that an accepted rest was aborted exactly when its sleep does not complete. -/
theorem rest_requests_answered {now paused : ℚ} {desired : PerceptionState.Desired}
    {driveScales : List (Option ℚ)} {awaits : Bool} {ms : List Move}
    (hrun : Run (Guarded Heard (Steps config))
      (initial config now paused desired driveScales awaits) ms s) :
    (∀ k < s.handled, AnsweredOnce (answers k s.log) ∨
      (∃ task ∈ s.tasks, ∃ request, task.site.request? = some request ∧ request.number = k ∧
        task.pc ≠ .done) ∧ (answers k s.log = [] ∨ answers k s.log = [.accepted])) ∧
    (∀ (k : ℕ) request, s.log[k]? = some (.restRequest request .accepted) →
      ∃ task ∈ s.tasks, task.site.request? = some request ∧
        ∃ n, Announced task.site.trigger n (s.log.take k)) ∧
    (∀ (i : ℕ) task request outcome exn t ms' s', s.tasks[i]? = some task →
      task.site.request? = some request → .accepted ∈ answers request.number s.log →
        Leaves task.pc outcome exn → Guarded Heard (Steps config) s (.resume i outcome) t →
          Run (Guarded Heard (Steps config)) t ms' s' →
            (∀ task', s'.tasks[i]? = some task' → task'.pc = .done) →
              answers request.number s'.log =
                if exn = none then [.accepted] else [.accepted, .aborted]) := by
  have hs := (attended_initial config now paused desired driveScales awaits).run hrun
  refine ⟨fun k hk => ?_, hs.answering.accepted, ?_⟩
  · rcases hs.answering.refused k hk with hbusy | hsoon | ⟨task, htask, request, hrequest, rfl⟩
    · exact .inl (.inl ⟨.busy, hbusy, by simp⟩)
    · exact .inl (.inl ⟨.tooSoon, hsoon, by simp⟩)
    · obtain ⟨i, hi⟩ := List.getElem?_of_mem htask
      rcases answers_of_stands ((hs.answering.standing i task hi).answered request hrequest) with
        ⟨hanswered, -⟩ | ⟨hpc, hgiven⟩
      · exact .inl hanswered
      · exact .inr ⟨⟨task, htask, request, hrequest, rfl, hpc⟩, hgiven⟩
  · intro i task request outcome exn t ms' s' hi hrequest haccepted hleaves hstep hafter hdone
    have hdue := due_of_leaves hs.answering hi hrequest haccepted hleaves
      (moved_of_step hstep.2) hstep.1
    obtain ⟨task', hi', -, ⟨-, hfinal⟩ | ⟨answer, hpc, -⟩⟩ := hdue.run (hs.step hstep) hafter
    · exact hfinal
    · rw [hdone task' hi'] at hpc
      cases hpc

theorem heard_returned (s : Sleep) (i : ℕ) : Heard s (.resume i .returned) := by
  rintro _ _ task request hm - -
  cases hm
  exact ⟨fun _ => rfl, by simp [Outcome.exn], fun _ => rfl⟩

/-- A rest request that is accepted and whose sleep completes. -/
theorem rest_requests_answered_rested : ∃ s,
    runMoves evenConfig (evenStart ⟨.physical, false⟩ [])
      (.restRequest .null .null :: List.replicate 12 (.resume 0 .returned)) = some s ∧
    s.tasks.map (·.pc) = [.done] ∧ AnsweredOnce (answers 0 s.log) := by
  have hsome : (runMoves evenConfig (evenStart ⟨.physical, false⟩ [])
      (.restRequest .null .null :: List.replicate 12 (.resume 0 .returned))).isSome := by
        decide +kernel
  obtain ⟨s, hs⟩ := Option.isSome_iff_exists.1 hsome
  have hends : (runMoves evenConfig (evenStart ⟨.physical, false⟩ [])
      (.restRequest .null .null :: List.replicate 12 (.resume 0 .returned))).map
      (fun s => (s.handled, s.tasks.map (·.pc))) = some (1, [.done]) := by decide +kernel
  rw [hs] at hends
  obtain ⟨hhandled, hdone⟩ := Prod.mk.inj (Option.some.inj hends)
  have hheard (s : Sleep) : ∀ m ∈ Move.restRequest .null .null :: List.replicate 12
      (.resume 0 .returned), Heard s m := by
    intro m hm
    rcases List.mem_cons.1 hm with rfl | hm
    · intro i outcome task request hresume
      cases hresume
    · rw [List.eq_of_mem_replicate hm]
      exact heard_returned s 0
  have hrun := run_of_runMoves hs hheard
  refine ⟨s, hs, hdone, ?_⟩
  rcases (rest_requests_answered hrun).1 0 (by omega) with hanswered | ⟨⟨task, htask, _, _, _, hpc⟩,
    -⟩
  · exact hanswered
  · have hmem : task.pc ∈ s.tasks.map (·.pc) := List.mem_map_of_mem htask
    rw [hdone] at hmem
    exact absurd (List.mem_singleton.1 hmem) hpc

/-- What a rest request is told when its sleep is cancelled in its first phase, and when it is
cancelled before its first step. -/
theorem cancelled_rest_unanswered :
    (runMoves evenConfig (evenStart ⟨.physical, false⟩ [])
      (.restRequest .null .null :: List.replicate 3 (.resume 0 .returned) ++
        [.resume 0 (.cancelled false), .resume 0 .returned, .resume 0 .returned])).map
        (fun s => (s.tasks.map (·.pc), answers 0 s.log, marks 1 s.log)) =
        some ([.done], [.accepted], [.started, .reset, .completed]) ∧
    (runMoves evenConfig (evenStart ⟨.physical, false⟩ [])
      [.restRequest .null .null, .resume 0 (.cancelled false)]).map
        (fun s => (s.handled, s.tasks.map (·.pc), answers 0 s.log)) = some (1, [.done], []) := by
  decide +kernel

end Kaine.Sleep
