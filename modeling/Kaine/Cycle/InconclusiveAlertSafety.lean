import Kaine.Cycle.InconclusiveAlert
import Kaine.Cycle.IndividuationSchedulerSafety

/-! The alert of a stretch: the first attempt that is due and at which sending does not fail sends
it, and no other of the stretch does. -/
namespace Kaine.IndividuationScheduler
open Py IndividuationStore

/-- What a stretch is owed: its start, where that is known, and whether the operator has been
told. -/
structure Running where
  since : Option ℤ
  told : Bool

namespace Running

variable {settings : AttemptSettings} {r : Running} {now : ℤ} {sendFails : Bool}
  {before : List (ℤ × Bool)}

/-- A stretch whose start is not known is due at once. -/
def due (settings : AttemptSettings) (r : Running) (now : ℤ) : Bool :=
  r.since.all fun t => decide (settings.inconclusiveAlertS ≤ elapsed t now)

/-- An attempt of the stretch: whether it tells the operator, and the stretch after it. -/
def attempt (settings : AttemptSettings) (r : Running) (now : ℤ) (sendFails : Bool) :
    Bool × Running :=
  let tells := r.due settings now && !r.told && !sendFails
  (tells, { r with told := r.told || tells })

/-- The stretch after attempts, each with its time and whether sending fails at it. -/
def after (settings : AttemptSettings) (r : Running) (before : List (ℤ × Bool)) : Running :=
  before.foldl (fun r b => (r.attempt settings b.1 b.2).2) r

theorem after_since (settings : AttemptSettings) (r : Running) (before : List (ℤ × Bool)) :
    (r.after settings before).since = r.since := by
  induction before generalizing r with
  | nil => rfl
  | cons b before ih => exact ih _

theorem after_told (settings : AttemptSettings) (r : Running) (before : List (ℤ × Bool)) :
    (r.after settings before).told = true ↔
      r.told = true ∨ ∃ b ∈ before, r.due settings b.1 = true ∧ b.2 = false := by
  induction before generalizing r with
  | nil => simp [after]
  | cons b before ih =>
    have hstep : r.after settings (b :: before) =
      (r.attempt settings b.1 b.2).2.after settings before := rfl
    have hdue : ∀ now, (r.attempt settings b.1 b.2).2.due settings now = r.due settings now :=
      fun _ => rfl
    have htold : (r.attempt settings b.1 b.2).2.told = true ↔
        r.told = true ∨ (r.due settings b.1 = true ∧ b.2 = false) := by
      simp only [attempt, Bool.or_eq_true, Bool.and_eq_true, Bool.not_eq_true']
      cases r.told <;> simp
    simp only [hstep, ih, hdue, htold, List.exists_mem_cons_iff, or_assoc]

/-- The operator is told by the first attempt that is due and at which sending does not fail, and by
no other. -/
theorem attempt_iff : ((r.after settings before).attempt settings now sendFails).1 = true ↔
    r.told = false ∧ r.due settings now = true ∧ sendFails = false ∧
      ∀ b ∈ before, ¬ (r.due settings b.1 = true ∧ b.2 = false) := by
  have hdue : (r.after settings before).due settings now = r.due settings now := by
    rw [due, due, after_since]
  have htold := after_told settings r before
  simp only [attempt, Bool.and_eq_true, Bool.not_eq_true', hdue]
  rw [← Bool.not_eq_true, htold]
  push Not
  simp only [ne_eq, Bool.not_eq_true]
  tauto

end Running

/-- An attempt of a stretch as it went. -/
structure Noticed where
  now : ℤ
  sendFails : Bool
  tells : Bool
deriving DecidableEq

variable {settings : AttemptSettings} {r : Running}

/-- The attempts go as those of the stretch `r`. -/
def Follows (settings : AttemptSettings) : Running → List Noticed → Prop
  | _, [] => True
  | r, n :: ns => n.tells = (r.attempt settings n.now n.sendFails).1 ∧
      Follows settings (r.attempt settings n.now n.sendFails).2 ns

/-- Of the attempts the first that is due and at which sending does not fail tells the operator,
where that is still to be done, and no other does. -/
structure Reported (settings : AttemptSettings) (r : Running) (attempts : List Noticed) : Prop where
  tells_iff : ∀ before n after, attempts = before ++ n :: after →
    (n.tells = true ↔ r.told = false ∧ r.due settings n.now = true ∧ n.sendFails = false ∧
      ∀ b ∈ before, ¬ (r.due settings b.now = true ∧ b.sendFails = false))
  once : (attempts.filter Noticed.tells).length ≤ 1

theorem Follows.tells_iff {attempts : List Noticed} (h : Follows settings r attempts) :
    ∀ before n after, attempts = before ++ n :: after →
      (n.tells = true ↔ r.told = false ∧ r.due settings n.now = true ∧ n.sendFails = false ∧
        ∀ b ∈ before, ¬ (r.due settings b.now = true ∧ b.sendFails = false)) := by
  intro before n after hattempts
  have hat : ∀ (before : List Noticed) (r : Running), Follows settings r (before ++ n :: after) →
      n.tells = ((r.after settings (before.map fun b => (b.now,
        b.sendFails))).attempt settings n.now n.sendFails).1 := by
    intro before
    induction before with
    | nil => exact fun r h => h.1
    | cons b before ih => exact fun r h => ih _ h.2
  rw [hat before r (hattempts ▸ h), Running.attempt_iff, List.forall_mem_map]

theorem Follows.length_tells {attempts : List Noticed} (h : Follows settings r attempts) :
    (attempts.filter Noticed.tells).length ≤ if r.told = true then 0 else 1 := by
  induction attempts generalizing r with
  | nil => exact Nat.zero_le _
  | cons n ns ih =>
    obtain ⟨htells, hrest⟩ := h
    have hns := ih hrest
    have htold : (r.attempt settings n.now n.sendFails).2.told = (r.told || n.tells) := by
      rw [htells]
      rfl
    rw [htold] at hns
    cases hn : n.tells with
    | false =>
      rw [List.filter_cons_of_neg (by simp [hn])]
      simpa [hn] using hns
    | true =>
      have hfirst : r.told = false := by
        rw [hn] at htells
        simp only [Running.attempt, Bool.true_eq, Bool.and_eq_true, Bool.not_eq_true'] at htells
        exact htells.1.2
      rw [List.filter_cons_of_pos hn, hfirst]
      simpa [hn] using hns

theorem Follows.reported {attempts : List Noticed} (h : Follows settings r attempts) :
    Reported settings r attempts where
  tells_iff := h.tells_iff
  once := h.length_tells.trans (by split <;> decide)

variable {path : String} {iso : Iso} {s : Alerting} {stretchFile : StretchFile}

/-- The capture stretch that a scheduler has in memory. -/
def captureView (iso : Iso) (s : Alerting) : Option Running :=
  s.stretch.map fun stretch =>
    ⟨if s.stretchSinceKnown then iso.parse stretch.since else none, stretch.alerted⟩

/-- The capture stretch that begins with an attempt: what the record says of it, if there is one and
it loads. -/
def captureBegin (iso : Iso) (call : NoteCall) (file : StretchFile) : Running :=
  match loadCaptureStretch file call.loadFails with
  | none => ⟨none, false⟩
  | some none => ⟨some call.now, false⟩
  | some (some stored) => ⟨iso.parse stored.since, stored.alerted⟩

/-- Does an attempt send the alert of its stretch? -/
def tells (sent : List Alert) : Bool := sent.any Alert.isInconclusive

theorem tells_single (b : Bool) (since : Option String) (past : Option ℚ)
    (lastReason captureReason : Option String) :
    tells (if b = true then [.inconclusive since past lastReason captureReason] else []) = b := by
  cases b <;> rfl

/-- The capture stretch that an attempt belongs to. -/
def captureRunning (iso : Iso) (call : NoteCall) (s : Alerting) (file : StretchFile) : Running :=
  (captureView iso s).getD (captureBegin iso call file)

theorem captureRunning_eq (iso : Iso) (call : NoteCall) (s : Alerting) (file : StretchFile) :
    captureRunning iso call s file =
      ⟨if (runningStretch iso call s file).2 then iso.parse (runningStretch iso call s file).1.since
        else none, (runningStretch iso call s file).1.alerted⟩ := by
  unfold captureRunning captureView captureBegin runningStretch
  cases s.stretch with
  | some stretch => rfl
  | none =>
    cases loadCaptureStretch file call.loadFails with
    | none => rfl
    | some stored =>
      cases stored with
      | none => simp [iso.parse_format]
      | some stretch => rfl

/-- Noting a failure is an attempt of the running stretch, or of the one that it begins. -/
theorem noteCaptureFailure_attempt (iso : Iso) (settings : AttemptSettings) (reason : String)
    (call : NoteCall) (s : Alerting) (file : StretchFile) :
    tells (noteCaptureFailure iso settings reason call s file).sent =
        ((captureRunning iso call s file).attempt settings call.now call.sendFails).1 ∧
      captureView iso (noteCaptureFailure iso settings reason call s file).state =
        some ((captureRunning iso call s file).attempt settings call.now call.sendFails).2 := by
  rw [captureRunning_eq]
  have hdue : (if (runningStretch iso call s file).2 = true
        then (iso.parse (runningStretch iso call s file).1.since).map fun since =>
          elapsed since call.now
        else none).all (fun seconds => decide (settings.inconclusiveAlertS ≤ seconds)) =
      (if (runningStretch iso call s file).2 = true
        then iso.parse (runningStretch iso call s file).1.since
          else none).all fun t => decide (settings.inconclusiveAlertS ≤ elapsed t call.now) := by
    split_ifs
    · cases iso.parse (runningStretch iso call s file).1.since <;> rfl
    · rfl
  constructor
  · simp only [noteCaptureFailure, tells_single, Running.attempt, Running.due, hdue]
  · simp only [noteCaptureFailure, Running.attempt, Running.due, hdue, captureView, Option.map_some]

theorem captureRunning_of_view {call : NoteCall} {r : Running} (h : captureView iso s = some r) :
    captureRunning iso call s stretchFile = r := by
  rw [captureRunning, h]
  rfl

/-! ### The ledger keeps what the stretch of looks is owed -/

/-- The new file stores no ledger but one whose stretch the old one stored. -/
def KeepsStretch (path : String) (file file' : LedgerFile) : Prop :=
  ∀ l', Stored path file' l' → ∃ l, Stored path file l ∧
    l'.inconclusiveSince = l.inconclusiveSince ∧ l'.inconclusiveAlerted = l.inconclusiveAlerted

theorem KeepsStretch.refl (path : String) (file : LedgerFile) : KeepsStretch path file file :=
  fun l hl => ⟨l, hl, rfl, rfl⟩

theorem KeepsStretch.trans {file file' file'' : LedgerFile} (h : KeepsStretch path file file')
    (h' : KeepsStretch path file' file'') : KeepsStretch path file file'' := by
  intro l'' hl''
  obtain ⟨l', hl', hsince', halerted'⟩ := h' l'' hl''
  obtain ⟨l, hl, hsince, halerted⟩ := h l' hl'
  exact ⟨l, hl, hsince'.trans hsince, halerted'.trans halerted⟩

/-- A flush changes what was lived only. -/
theorem flushLived_keepsStretch (path : String) (p : Scheduler) (file : LedgerFile)
    (call : FlushCall) : KeepsStretch path file (flushLived path p file call).file := by
  unfold flushLived
  split
  · exact .refl path file
  · exact .refl path file
  · exact .refl path file
  · rename_i ledger hload
    split
    · exact .refl path file
    · have hsaved : KeepsStretch path file
        (saveLedger path file (call.save (p.credit ledger))).file := by
        rcases saveLedger_cases path file (call.save (p.credit ledger)) with ⟨-,
          hfile⟩ | ⟨-, -, hfile⟩
        · rw [hfile]
          exact .refl path file
        · rw [hfile]
          intro l' hl'
          obtain rfl : l' = p.credit ledger := stored_unique (.inr rfl) hl'
          exact ⟨ledger, .inl (load_some hload), rfl, rfl⟩
      dsimp only
      split
      · exact hsaved
      · exact hsaved

/-- What the stretch of looks is owed is `r`: its start is stored, and the operator has been told
where the ledger says so or the process remembers it. -/
def Holds (path : String) (iso : Iso) (r : Running) (s : Alerting) (file : LedgerFile) : Prop :=
  ∀ l, Stored path file l → ∃ since, l.inconclusiveSince = some since ∧ iso.parse since = r.since ∧
    (l.inconclusiveAlerted || decide (s.alertedSince = some since)) = r.told

theorem Holds.keeps {r : Running} {s s' : Alerting} {file file' : LedgerFile}
    (h : Holds path iso r s file) (hkeeps : KeepsStretch path file file')
    (hs : s'.alertedSince = s.alertedSince) :
      Holds path iso r s' file' := by
  intro l' hl'
  obtain ⟨l, hl, hsince, halerted⟩ := hkeeps l' hl'
  obtain ⟨since, hstart, hparse, htold⟩ := h l hl
  exact ⟨since, hsince.trans hstart, hparse, by rw [halerted, hs]; exact htold⟩

theorem refreshState_alertedSince (path : String) (refresh : FlushCall) (s : Alerting)
    (file : LedgerFile) : (refreshState path refresh s file).1.alertedSince = s.alertedSince := by
  unfold refreshState
  split
  · split <;> rfl
  · rfl
  · split <;> rfl

/-- The stretch that a mark belongs to, where the ledger reads. -/
def lookRunning (iso : Iso) (call : MarkCall) (s : Alerting) (l : Ledger) : Running :=
  ⟨iso.parse (stretchStart iso call l),
    l.inconclusiveAlerted || decide (s.alertedSince = some (stretchStart iso call l))⟩

theorem stretchTold_attempt (iso : Iso) (settings : AttemptSettings) (call : MarkCall)
    (s : Alerting) (l : Ledger) :
    stretchTold iso settings call s l =
      ((lookRunning iso call s l).attempt settings call.later call.sendFails).1 := by
  have hdue : decide (settings.inconclusiveAlertS ≤ stretchSeconds iso settings call l) =
      (iso.parse (stretchStart iso call l)).all fun t => decide (settings.inconclusiveAlertS ≤
        elapsed t call.later) := by
    unfold stretchSeconds
    cases iso.parse (stretchStart iso call l) with
    | none => exact decide_eq_true le_rfl
    | some t => rfl
  simp only [stretchTold, hdue, lookRunning, Running.attempt, Running.due, Bool.not_or, decide_not,
    Bool.and_assoc]

theorem tells_append (sent sent' : List Alert) :
    tells (sent ++ sent') = (tells sent || tells sent') := by
  simp only [tells, List.any_append]

theorem tells_changed (b : Bool) (id : Json) :
    tells (if b = true then [.conditionsChanged id] else []) = false := by
  cases b <;> rfl

/-- What a mark sends, what the process remembers after it, and what the file stores. -/
theorem markInconclusive_does (iso : Iso) (settings : AttemptSettings) (reason : Option String)
    (s : Alerting) {call : MarkCall} {file : LedgerFile} {l : Ledger}
    (hload : call.io.load path file = .ok (some l)) :
    tells (markInconclusive path iso settings reason call s file).sent =
      stretchTold iso settings call s l ∧
        (markInconclusive path iso settings reason call s file).state.alertedSince =
        (if stretchTold iso settings call s l = true then some (stretchStart iso call l)
          else s.alertedSince) ∧
      ((markInconclusive path iso settings reason call s file).file = file ∨
        (markInconclusive path iso settings reason call s file).file =
          .json (.obj (markedLedger iso settings reason call s l).toDict)) := by
  have hsaved :
      (saveLedger path file (call.io.save (markedLedger iso settings reason call s l))).file =
        file ∨
      (saveLedger path file (call.io.save (markedLedger iso settings reason call s l))).file =
        .json (.obj (markedLedger iso settings reason call s l).toDict) := by
    rcases saveLedger_cases path file
      (call.io.save (markedLedger iso settings reason call s l)) with
      ⟨-, hfile⟩ | ⟨-, -, hfile⟩
    · exact .inl hfile
    · exact .inr hfile
  have hsince : ∀ {b : Bool} {since : String},
      (if b = true then { s with alertedSince := some since } else s).alertedSince =
        if b = true then some since else s.alertedSince := by
    intro b since
    cases b <;> rfl
  simp only [markInconclusive, hload]
  split
  · split
    · exact ⟨by rw [tells_append, tells_changed, tells_single, Bool.false_or], hsince, hsaved⟩
    · exact ⟨by rw [tells_append, tells_changed, tells_single, Bool.false_or],
        by rw [refreshState_alertedSince, hsince], hsaved⟩
  · exact ⟨by rw [tells_append, tells_changed, tells_single, Bool.false_or],
      by rw [refreshState_alertedSince, hsince], .inl rfl⟩

/-- A mark at which the ledger does not read, or is missing, leaves the stretch. -/
theorem markInconclusive_unread (iso : Iso) (settings : AttemptSettings) (reason : Option String)
    (s : Alerting) {call : MarkCall} {file : LedgerFile}
    (hload : ∀ l, call.io.load path file ≠ .ok (some l)) :
    tells (markInconclusive path iso settings reason call s file).sent = false ∧
      (markInconclusive path iso settings reason call s file).state.alertedSince = s.alertedSince ∧
      (markInconclusive path iso settings reason call s file).file = file := by
  unfold markInconclusive
  split
  · unfold alertLedgerUnreadable
    split
    · exact ⟨rfl, rfl, rfl⟩
    · exact ⟨rfl, rfl, rfl⟩
  · exact ⟨rfl, rfl, rfl⟩
  · exact ⟨rfl, rfl, rfl⟩
  · rename_i l hl
    exact absurd hl (hload l)

theorem stored_of_load {call : FlushCall} {file : LedgerFile} {l : Ledger}
    (hload : call.load path file = .ok (some l)) : Stored path file l :=
  .inl (load_some hload)

/-- A mark is an attempt of its stretch, and what the stretch is owed after it is held where its
start is stored. -/
theorem markInconclusive_holds {call : MarkCall} {file : LedgerFile} {l : Ledger}
    (reason : Option String) (hload : call.io.load path file = .ok (some l))
    (hsaved : l.inconclusiveSince = none → ∀ l',
      Stored path (markInconclusive path iso settings reason call s file).file
      l' → l'.inconclusiveSince ≠ none) :
    tells (markInconclusive path iso settings reason call s file).sent =
        ((lookRunning iso call s l).attempt settings call.later call.sendFails).1 ∧
      Holds path iso ((lookRunning iso call s l).attempt settings call.later call.sendFails).2
        (markInconclusive path iso settings reason call s file).state
        (markInconclusive path iso settings reason call s file).file := by
  obtain ⟨hsent, hsince, hfile⟩ := markInconclusive_does iso settings reason s hload
  refine ⟨hsent.trans (stretchTold_attempt ..), ?_⟩
  have htold : ((lookRunning iso call s l).attempt settings call.later call.sendFails).2.told =
      (l.inconclusiveAlerted || decide (s.alertedSince = some (stretchStart iso call l)) ||
        stretchTold iso settings call s l) := by
    rw [stretchTold_attempt]
    rfl
  have hremembered :
      decide ((markInconclusive path iso settings reason call s file).state.alertedSince =
      some (stretchStart iso call l)) =
        (decide (s.alertedSince = some (stretchStart iso call l)) ||
          stretchTold iso settings call s l) := by
    rw [hsince]
    cases stretchTold iso settings call s l with
    | false => simp
    | true => simp
  intro l' hl'
  refine ⟨stretchStart iso call l, ?_, rfl, ?_⟩
  · rcases hfile with hfile | hfile
    · have hold : Stored path file l' := by
        rw [hfile] at hl'
        exact hl'
      obtain rfl : l' = l := stored_unique (stored_of_load hload) hold
      cases hstart : l'.inconclusiveSince with
      | none => exact absurd hstart (hsaved hstart l' hl')
      | some since => simp [stretchStart, hstart]
    · rw [hfile] at hl'
      obtain rfl := stored_unique (.inr rfl) hl'
      rfl
  · rw [hremembered, htold]
    rcases hfile with hfile | hfile
    · rw [hfile] at hl'
      obtain rfl : l' = l := stored_unique (stored_of_load hload) hl'
      rw [Bool.or_assoc]
    · rw [hfile] at hl'
      obtain rfl := stored_unique (.inr rfl) hl'
      simp only [markedLedger]
      cases l.inconclusiveAlerted <;> cases stretchTold iso settings call s l <;> simp

/-- Where the start of the stretch is stored, a mark is an attempt of the stretch that is held. -/
theorem Holds.mark {s : Alerting} {call : MarkCall} {file : LedgerFile} {l : Ledger}
    (h : Holds path iso r s file)
    (settings : AttemptSettings) (reason : Option String)
    (hload : call.io.load path file = .ok (some l)) :
    tells (markInconclusive path iso settings reason call s file).sent =
        (r.attempt settings call.later call.sendFails).1 ∧
      Holds path iso (r.attempt settings call.later call.sendFails).2
        (markInconclusive path iso settings reason call s file).state
        (markInconclusive path iso settings reason call s file).file := by
  obtain ⟨since, hsince, hparse, htold⟩ := h l (stored_of_load hload)
  have hstart : stretchStart iso call l = since := by rw [stretchStart, hsince, Option.getD_some]
  have hrunning : lookRunning iso call s l = r := by
    rw [lookRunning, hstart, hparse, htold]
  rw [← hrunning]
  refine markInconclusive_holds reason hload fun hnone => ?_
  rw [hnone] at hsince
  cases hsince

/-! ### Attempts of a process, with what else it does between them -/

/-- What changes between two attempts: what was lived, the ledger, what is to be captured and when
to attempt. -/
structure Between where
  counting : Scheduler
  ledger : LedgerFile
  captureKind : Option String
  captureRegenerate : Bool
  captureAt : Option ℚ
  captureBackoff : ℚ
  lookDueAt : Option ℚ
  ledgerUnreadableAlerted : Bool

inductive Act
  | capture (call : CaptureCall)
  | look (call : LookCall)
  | between (next : Between)

namespace Attempter

def between (next : Between) (s : Attempter) : Attempter :=
  { s with
    counting := next.counting
    alerting := { s.alerting with ledgerUnreadableAlerted := next.ledgerUnreadableAlerted }
    captureKind := next.captureKind
    captureRegenerate := next.captureRegenerate
    captureAt := next.captureAt
    captureBackoff := next.captureBackoff
    lookDueAt := next.lookDueAt
    ledger := next.ledger }

def act (path : String) (iso : Iso) (settings : AttemptSettings) (s : Attempter) : Act → Attempted
  | .capture call => attemptCapture path iso settings call s
  | .look call => attemptLook path iso settings call s
  | .between next => { attempter := between next s }

def acts (path : String) (iso : Iso) (settings : AttemptSettings) (s : Attempter)
    (todo : List Act) : Attempter :=
  todo.foldl (fun s a => (act path iso settings s a).attempter) s

/-- An attempt at which a failing capture is noted, as it goes. -/
def captureNotice (path : String) (iso : Iso) (settings : AttemptSettings) (s : Attempter) : Act →
    Option Noticed
  | .capture call =>
    match capturePath path settings call s with
    | .fails .. =>
      some ⟨call.note.now, call.note.sendFails,
        tells (attemptCapture path iso settings call s).sent⟩
    | .done _ => none
  | _ => none

/-- An attempt at which a look is marked and the ledger reads, as it goes. -/
def lookNotice (path : String) (iso : Iso) (settings : AttemptSettings) (s : Attempter) :
    Act → Option Noticed
  | .look call =>
    match lookPath path iso settings call s with
    | .marks _ s' _ =>
      match call.mark.io.load path s'.ledger with
      | .ok (some _) =>
        some ⟨call.mark.later, call.mark.sendFails,
          tells (attemptLook path iso settings call s).sent⟩
      | _ => none
    | .done _ => none
  | _ => none

/-- What is noticed of the acts, in their order. -/
def log (path : String) (iso : Iso) (settings : AttemptSettings)
    (notice : Attempter → Act → Option Noticed) : Attempter → List Act → List Noticed
  | _, [] => []
  | s, a :: todo => (notice s a).toList ++
    log path iso settings notice (act path iso settings s a).attempter todo

end Attempter

/-- Nothing changes of the capture stretch. -/
structure KeepsCapture (s s' : Attempter) : Prop where
  stretch : s'.alerting.stretch = s.alerting.stretch
  sinceKnown : s'.alerting.stretchSinceKnown = s.alerting.stretchSinceKnown
  file : s'.stretch = s.stretch

/-- Nothing changes of the stretch of looks. -/
structure KeepsLook (path : String) (s s' : Attempter) : Prop where
  alertedSince : s'.alerting.alertedSince = s.alerting.alertedSince
  ledger : KeepsStretch path s.ledger s'.ledger

theorem KeepsCapture.refl (s : Attempter) : KeepsCapture s s := ⟨rfl, rfl, rfl⟩

theorem KeepsCapture.trans {s s' s'' : Attempter} (h : KeepsCapture s s')
    (h' : KeepsCapture s' s'') : KeepsCapture s s'' :=
  ⟨h'.stretch.trans h.stretch, h'.sinceKnown.trans h.sinceKnown, h'.file.trans h.file⟩

theorem KeepsLook.refl (path : String) (s : Attempter) : KeepsLook path s s :=
  ⟨rfl, .refl path s.ledger⟩

theorem KeepsLook.trans {s s' s'' : Attempter} (h : KeepsLook path s s')
    (h' : KeepsLook path s' s'') : KeepsLook path s s'' :=
  ⟨h'.alertedSince.trans h.alertedSince, h.ledger.trans h'.ledger⟩

theorem refreshState_stretch (path : String) (refresh : FlushCall) (s : Alerting)
    (file : LedgerFile) : (refreshState path refresh s file).1.stretch = s.stretch ∧
      (refreshState path refresh s file).1.stretchSinceKnown = s.stretchSinceKnown := by
  unfold refreshState
  split
  · split <;> exact ⟨rfl, rfl⟩
  · exact ⟨rfl, rfl⟩
  · split <;> exact ⟨rfl, rfl⟩

namespace Attempter

theorem refreshed_keepsCapture (path : String) (refresh : FlushCall) (s : Attempter) :
    KeepsCapture s (refreshed path refresh s).attempter :=
  ⟨(refreshState_stretch ..).1, (refreshState_stretch ..).2, rfl⟩

theorem refreshed_keepsLook (path : String) (refresh : FlushCall) (s : Attempter) :
    KeepsLook path s (refreshed path refresh s).attempter :=
  ⟨refreshState_alertedSince .., .refl path s.ledger⟩

theorem maybeReanchor_keeps (path : String) (call : CaptureCall) (s : Attempter) :
    (maybeReanchor path call s).alerting = s.alerting ∧
      (maybeReanchor path call s).stretch = s.stretch ∧
        (maybeReanchor path call s).ledger = s.ledger ∧ (maybeReanchor path call s).captureAt =
          s.captureAt := by
  unfold maybeReanchor
  split <;> exact ⟨rfl, rfl, rfl, rfl⟩

theorem alertLedgerUnreadable_keeps (s : Alerting) (sendFails : Bool) :
    (alertLedgerUnreadable s sendFails).1.stretch = s.stretch ∧
      (alertLedgerUnreadable s sendFails).1.stretchSinceKnown = s.stretchSinceKnown ∧
      (alertLedgerUnreadable s sendFails).1.alertedSince = s.alertedSince ∧
      tells (alertLedgerUnreadable s sendFails).2 = false := by
  unfold alertLedgerUnreadable
  split <;> exact ⟨rfl, rfl, rfl, rfl⟩

end Attempter

/-- A capture that fails or is blocked goes on with its stretch; any other ends it. -/
def CaptureCall.fails (call : CaptureCall) : Bool :=
  call.blocked.isSome ||
    match call.result with
    | .raised _ | .failed _ => true
    | .referenceExists | .captured => false

/-- Where an attempt at a capture has come. -/
def CapturePath.state : CapturePath → Attempter
  | .done result => result.attempter
  | .fails _ s _ => s

/-- Where an attempt at a look has come. -/
def LookPath.state : LookPath → Attempter
  | .done result => result.attempter
  | .marks _ s _ => s

/-- The ledgers that an attempt comes to: the one that it found, the flushed one, and the one that
the core leaves. -/
def ComesTo (path : String) (s : Attempter) (flush : FlushCall) (core : Option LedgerFile)
    (file : LedgerFile) : Prop :=
  file = s.ledger ∨ file = (flushLived path s.counting s.ledger flush).file ∨
    file = core.getD (flushLived path s.counting s.ledger flush).file

theorem ComesTo.keepsStretch {s : Attempter} {flush : FlushCall} {core : Option LedgerFile}
    {file : LedgerFile} (h : ComesTo path s flush core file)
    (hcore : ∀ f, core = some f → KeepsStretch path s.ledger f) :
    KeepsStretch path s.ledger file := by
  have hflush := flushLived_keepsStretch path s.counting s.ledger flush
  rcases h with rfl | rfl | rfl
  · exact .refl path s.ledger
  · exact hflush
  · cases core with
    | none => exact hflush
    | some f => exact hcore f rfl

namespace Attempter

theorem capturePath_looks (path : String) (settings : AttemptSettings) (call : CaptureCall)
    (s : Attempter) : (capturePath path settings call s).state.alerting.alertedSince =
      s.alerting.alertedSince ∧ ComesTo path s call.flush call.coreLedger
        (capturePath path settings call s).state.ledger := by
  unfold capturePath
  split
  · dsimp only
    split
    · exact ⟨refreshState_alertedSince .., .inl rfl⟩
    · exact ⟨refreshState_alertedSince .., .inl rfl⟩
  · dsimp only
    split
    · exact ⟨rfl, .inr (.inl rfl)⟩
    · split
      · exact ⟨refreshState_alertedSince .., .inr (.inr rfl)⟩
      · rename_i ledgerUnreadable _
        refine ⟨?_, .inr (.inr ?_)⟩
        · cases ledgerUnreadable with
          | false => simp [CapturePath.state, maybeReanchor_keeps, backOff]
          | true =>
            simp [CapturePath.state, alertLedgerUnreadable_keeps, maybeReanchor_keeps, backOff]
        · simp only [CapturePath.state, (maybeReanchor_keeps ..).2.2.1, backOff]
      · refine ⟨?_, .inr (.inr ?_)⟩
        · simp only [CapturePath.state, (maybeReanchor_keeps ..).1, backOff]
        · simp only [CapturePath.state, (maybeReanchor_keeps ..).2.2.1, backOff]
      · exact ⟨refreshState_alertedSince .., .inr (.inr rfl)⟩

theorem capturePath_keepsCapture {call : CaptureCall} (hfails : call.fails = true) (path : String)
    (settings : AttemptSettings) (s : Attempter) :
    KeepsCapture s (capturePath path settings call s).state := by
  unfold capturePath
  split
  · have hrefreshed := refreshed_keepsCapture path call.refresh
      { s with captureAt := some (call.m + settings.blockedRetryS) }
    dsimp only
    split
    · exact ⟨hrefreshed.stretch, hrefreshed.sinceKnown, hrefreshed.file⟩
    · exact ⟨hrefreshed.stretch, hrefreshed.sinceKnown, hrefreshed.file⟩
  · rename_i hblocked
    dsimp only
    split
    · exact ⟨rfl, rfl, rfl⟩
    · cases hresult : call.result with
      | referenceExists => simp [CaptureCall.fails, hblocked, hresult] at hfails
      | captured => simp [CaptureCall.fails, hblocked, hresult] at hfails
      | raised ledgerUnreadable =>
        simp only [CapturePath.state]
        cases ledgerUnreadable with
        | false =>
            exact ⟨by simp [maybeReanchor_keeps, backOff], by simp [maybeReanchor_keeps, backOff],
            by simp [maybeReanchor_keeps, backOff]⟩
        | true => exact ⟨by simp [alertLedgerUnreadable_keeps, maybeReanchor_keeps, backOff],
            by simp [alertLedgerUnreadable_keeps, maybeReanchor_keeps, backOff],
              by simp [maybeReanchor_keeps, backOff]⟩
      | failed reason =>
        simp only [CapturePath.state]
        exact ⟨by simp [maybeReanchor_keeps, backOff], by simp [maybeReanchor_keeps, backOff],
          by simp [maybeReanchor_keeps, backOff]⟩

/-- What is sent before a failing capture is noted is not the alert of a stretch. -/
theorem capturePath_tells {call : CaptureCall} {s s' : Attempter} {reason : String}
    {sent : List Alert} (h : capturePath path settings call s = .fails reason s' sent) :
    tells sent = false := by
  unfold capturePath at h
  split at h
  · dsimp only at h
    split at h
    · cases h
    · cases h
      rfl
  · dsimp only at h
    split at h
    · cases h
    · split at h
      · cases h
      · rename_i ledgerUnreadable _
        cases h
        cases ledgerUnreadable with
        | false => rfl
        | true => exact (alertLedgerUnreadable_keeps ..).2.2.2
      · cases h
        rfl
      · cases h

theorem lookAllowed_looks (path : String) (settings : AttemptSettings) (call : LookCall)
    (s : Attempter) : (lookAllowed path settings call s).state.alerting.alertedSince =
      s.alerting.alertedSince ∧ ComesTo path s call.flush call.coreLedger
        (lookAllowed path settings call s).state.ledger := by
  unfold lookAllowed
  split
  · dsimp only
    split
    · exact ⟨refreshState_alertedSince .., .inl rfl⟩
    · split
      · exact ⟨refreshState_alertedSince .., .inl rfl⟩
      · exact ⟨refreshState_alertedSince .., .inl rfl⟩
  · dsimp only
    split
    · exact ⟨rfl, .inr (.inl rfl)⟩
    · split
      · exact ⟨rfl, .inr (.inl rfl)⟩
      · split
        · split
          · exact ⟨rfl, .inr (.inr rfl)⟩
          · split
            · exact ⟨refreshState_alertedSince .., .inr (.inr rfl)⟩
            · exact ⟨rfl, .inr (.inr rfl)⟩
        · exact ⟨refreshState_alertedSince .., .inr (.inr rfl)⟩
        · exact ⟨rfl, .inr (.inr rfl)⟩
        · exact ⟨refreshState_alertedSince .., .inr (.inr rfl)⟩

theorem lookPath_looks (path : String) (iso : Iso) (settings : AttemptSettings) (call : LookCall)
    (s : Attempter) :
    (lookPath path iso settings call s).state.alerting.alertedSince = s.alerting.alertedSince ∧
      ComesTo path s call.flush call.coreLedger
        (lookPath path iso settings call s).state.ledger := by
  have hallowed := lookAllowed_looks path settings call s
  unfold lookPath
  split
  · exact ⟨refreshState_alertedSince .., .inl rfl⟩
  · split
    · exact ⟨rfl, .inl rfl⟩
    · exact hallowed
    · split
      · exact ⟨refreshState_alertedSince .., .inl rfl⟩
      · split
        · exact ⟨refreshState_alertedSince .., .inl rfl⟩
        · exact hallowed

theorem lookAllowed_keepsCapture (path : String) (settings : AttemptSettings) (call : LookCall)
    (s : Attempter) :
    KeepsCapture s (lookAllowed path settings call s).state := by
  have hrefreshed : ∀ s' : Attempter, KeepsCapture s s' →
      KeepsCapture s (refreshed path call.refresh s').attempter :=
    fun s' h => h.trans (refreshed_keepsCapture path call.refresh s')
  unfold lookAllowed
  split
  · dsimp only
    split
    · exact hrefreshed _ ⟨rfl, rfl, rfl⟩
    · split
      · exact hrefreshed _ ⟨rfl, rfl, rfl⟩
      · exact hrefreshed _ ⟨rfl, rfl, rfl⟩
  · dsimp only
    split
    · exact ⟨rfl, rfl, rfl⟩
    · split
      · exact ⟨rfl, rfl, rfl⟩
      · split
        · split
          · exact ⟨rfl, rfl, rfl⟩
          · split
            · exact hrefreshed _ ⟨rfl, rfl, rfl⟩
            · exact ⟨rfl, rfl, rfl⟩
        · exact hrefreshed _ ⟨rfl, rfl, rfl⟩
        · exact ⟨rfl, rfl, rfl⟩
        · exact hrefreshed _ ⟨rfl, rfl, rfl⟩

theorem lookPath_keepsCapture (path : String) (iso : Iso) (settings : AttemptSettings)
    (call : LookCall) (s : Attempter) :
    KeepsCapture s (lookPath path iso settings call s).state := by
  have hallowed := lookAllowed_keepsCapture path settings call s
  have hrefreshed : ∀ s' : Attempter, KeepsCapture s s' →
      KeepsCapture s (refreshed path call.refresh s').attempter :=
    fun s' h => h.trans (refreshed_keepsCapture path call.refresh s')
  unfold lookPath
  split
  · exact hrefreshed _ ⟨rfl, rfl, rfl⟩
  · split
    · exact .refl s
    · exact hallowed
    · split
      · exact hrefreshed _ ⟨rfl, rfl, rfl⟩
      · split
        · exact hrefreshed _ ⟨rfl, rfl, rfl⟩
        · exact hallowed

theorem markInconclusive_stretch (path : String) (iso : Iso) (settings : AttemptSettings)
    (reason : Option String)
    (call : MarkCall) (s : Alerting) (file : LedgerFile) :
    (markInconclusive path iso settings reason call s file).state.stretch = s.stretch ∧
      (markInconclusive path iso settings reason call s file).state.stretchSinceKnown =
        s.stretchSinceKnown := by
  have hrefreshed : ∀ (b : Bool) (since : String) (file : LedgerFile),
      (refreshState path call.refresh (if b = true then { s with alertedSince := some since }
        else s) file).1.stretch = s.stretch ∧
      (refreshState path call.refresh (if b = true then { s with alertedSince := some since }
        else s) file).1.stretchSinceKnown = s.stretchSinceKnown := by
    intro b since file
    rw [(refreshState_stretch ..).1, (refreshState_stretch ..).2]
    cases b <;> exact ⟨rfl, rfl⟩
  unfold markInconclusive
  split
  · exact ⟨(alertLedgerUnreadable_keeps ..).1, (alertLedgerUnreadable_keeps ..).2.1⟩
  · exact ⟨rfl, rfl⟩
  · exact ⟨rfl, rfl⟩
  · rename_i ledger _
    dsimp only
    split
    · split
      · cases stretchTold iso settings call s ledger <;> exact ⟨rfl, rfl⟩
      · exact hrefreshed ..
    · exact hrefreshed ..

theorem attemptLook_keepsCapture (path : String) (iso : Iso) (settings : AttemptSettings)
    (call : LookCall) (s : Attempter) :
    KeepsCapture s (attemptLook path iso settings call s).attempter := by
  have hpath := lookPath_keepsCapture path iso settings call s
  unfold attemptLook
  split
  · rename_i result hresult
    rw [hresult] at hpath
    exact hpath
  · rename_i reason s' refreshes hmarks
    rw [hmarks] at hpath
    have hstretch := markInconclusive_stretch path iso settings reason call.mark
      s'.alerting s'.ledger
    have hmarked : KeepsCapture s (mark path iso settings reason call.mark s').attempter :=
      hpath.trans ⟨hstretch.1, hstretch.2, rfl⟩
    dsimp only
    split
    · exact hmarked.trans (refreshed_keepsCapture ..)
    · exact hmarked

end Attempter

/-- The act leaves the capture stretch, or is a failing capture that goes on with it. -/
def Act.KeepsCapture : Act → Prop
  | .capture call => call.fails = true
  | .look _ | .between _ => True

theorem captureView_of_keeps {s s' : Attempter} (h : KeepsCapture s s') :
    captureView iso s'.alerting = captureView iso s.alerting := by
  rw [captureView, captureView, h.stretch, h.sinceKnown]

theorem captureRunning_of_keeps (iso : Iso) {s s' : Attempter} (h : KeepsCapture s s')
    (call : NoteCall) : captureRunning iso call s'.alerting s'.stretch =
      captureRunning iso call s.alerting s.stretch := by
  rw [captureRunning, captureRunning, captureView_of_keeps h, h.file]

namespace Attempter

/-- A failing capture that is noted is an attempt of its stretch. -/
theorem attemptCapture_noted (iso : Iso) {call : CaptureCall} {s s' : Attempter} {reason : String}
    {sent : List Alert}
    (hfails : call.fails = true)
    (hpath : capturePath path settings call s = .fails reason s' sent) :
    tells (attemptCapture path iso settings call s).sent =
        ((captureRunning iso call.note s.alerting s.stretch).attempt settings call.note.now
          call.note.sendFails).1 ∧
      captureView iso (attemptCapture path iso settings call s).attempter.alerting =
        some ((captureRunning iso call.note s.alerting s.stretch).attempt settings call.note.now
          call.note.sendFails).2 := by
  have hkeeps := capturePath_keepsCapture hfails path settings s
  rw [hpath] at hkeeps
  have hrunning := captureRunning_of_keeps iso hkeeps call.note
  rw [← hrunning]
  have hnoted := noteCaptureFailure_attempt iso settings reason call.note s'.alerting s'.stretch
  simp only [attemptCapture, hpath, trackCaptureFailure, tells_append, capturePath_tells hpath,
    Bool.false_or]
  exact hnoted

theorem act_keepsCapture {s : Attempter} {a : Act} (ha : a.KeepsCapture)
    (hnotice : captureNotice path iso settings s a = none) :
    KeepsCapture s (act path iso settings s a).attempter := by
  cases a with
  | capture call =>
    have hkeeps := capturePath_keepsCapture ha path settings s
    cases hpath : capturePath path settings call s with
    | done result =>
      rw [hpath] at hkeeps
      simp only [act, attemptCapture, hpath]
      exact hkeeps
    | fails reason s' sent => simp [captureNotice, hpath] at hnotice
  | look call => exact attemptLook_keepsCapture path iso settings call s
  | between next => exact ⟨rfl, rfl, rfl⟩

theorem captureNotice_of_fails {call : CaptureCall} {s s' : Attempter} {reason : String}
    {sent : List Alert} (hpath : capturePath path settings call s = .fails reason s' sent) :
    captureNotice path iso settings s (.capture call) =
      some ⟨call.note.now, call.note.sendFails,
        tells (attemptCapture path iso settings call s).sent⟩ := by
  simp only [captureNotice, hpath]

theorem captureNotice_some {s : Attempter} {a : Act} {n : Noticed}
    (h : captureNotice path iso settings s a = some n) :
    ∃ call reason s' sent, a = .capture call ∧
      capturePath path settings call s = .fails reason s' sent ∧
        n = ⟨call.note.now, call.note.sendFails,
          tells (attemptCapture path iso settings call s).sent⟩ := by
  cases a with
  | look call => cases h
  | between next => cases h
  | capture call =>
    cases hpath : capturePath path settings call s with
    | done result => simp [captureNotice, hpath] at h
    | fails reason s' sent =>
      simp only [captureNotice, hpath] at h
      cases h
      exact ⟨call, reason, s', sent, rfl, hpath, rfl⟩

/-- The attempts at captures go as those of the stretch that the process has in memory. -/
theorem captures_follow {todo : List Act} (htodo : ∀ a ∈ todo, a.KeepsCapture) (s : Attempter)
    (hview : captureView iso s.alerting = some r) :
    Follows settings r (log path iso settings (captureNotice path iso settings) s todo) := by
  induction todo generalizing s r with
  | nil => trivial
  | cons a todo ih =>
    have ha := htodo a List.mem_cons_self
    have hrest : ∀ b ∈ todo, b.KeepsCapture := fun b hb => htodo b (List.mem_cons_of_mem a hb)
    rw [log]
    cases hnotice : captureNotice path iso settings s a with
    | none => exact ih hrest _ ((captureView_of_keeps (act_keepsCapture ha hnotice)).trans hview)
    | some n =>
      obtain ⟨call, reason, s', sent, rfl, hpath, rfl⟩ := captureNotice_some hnotice
      obtain ⟨htells, hafter⟩ := attemptCapture_noted iso ha hpath
      rw [captureRunning_of_view hview] at htells hafter
      exact ⟨htells, ih hrest _ hafter⟩

theorem attemptCapture_looks (path : String) (iso : Iso) (settings : AttemptSettings)
    (call : CaptureCall) (s : Attempter) :
    (attemptCapture path iso settings call s).attempter.alerting.alertedSince =
      s.alerting.alertedSince ∧ ComesTo path s call.flush call.coreLedger
        (attemptCapture path iso settings call s).attempter.ledger := by
  have hpath := capturePath_looks path settings call s
  unfold attemptCapture
  split
  · rename_i result hresult
    rw [hresult] at hpath
    exact hpath
  · rename_i reason s' sent hfails
    rw [hfails] at hpath
    exact hpath

/-- What the process has after a look that is marked is what it has after the mark. -/
theorem attemptLook_marks {call : LookCall} {s s' : Attempter} {reason : Option String}
    {refreshes : Bool} (hpath : lookPath path iso settings call s = .marks reason s' refreshes) :
    (attemptLook path iso settings call s).sent =
      (mark path iso settings reason call.mark s').sent ∧
        KeepsLook path (mark path iso settings reason call.mark s').attempter
        (attemptLook path iso settings call s).attempter := by
  simp only [attemptLook, hpath]
  split
  · exact ⟨rfl, refreshed_keepsLook ..⟩
  · exact ⟨rfl, .refl path _⟩

theorem lookNotice_of_marks {call : LookCall} {s s' : Attempter} {reason : Option String}
    {refreshes : Bool} {l : Ledger}
    (hpath : lookPath path iso settings call s = .marks reason s' refreshes)
    (hload : call.mark.io.load path s'.ledger = .ok (some l)) :
    lookNotice path iso settings s (.look call) =
      some ⟨call.mark.later, call.mark.sendFails,
        tells (attemptLook path iso settings call s).sent⟩ := by
  simp only [lookNotice, hpath, hload]

theorem lookNotice_some {s : Attempter} {a : Act} {n : Noticed}
    (h : lookNotice path iso settings s a = some n) :
    ∃ call reason s' refreshes l, a = .look call ∧ lookPath path iso settings call s =
      .marks reason s' refreshes ∧
      call.mark.io.load path s'.ledger = .ok (some l) ∧
      n = ⟨call.mark.later, call.mark.sendFails,
        tells (attemptLook path iso settings call s).sent⟩ := by
  cases a with
  | capture call => cases h
  | between next => cases h
  | look call =>
    cases hpath : lookPath path iso settings call s with
    | done result => simp [lookNotice, hpath] at h
    | marks reason s' refreshes =>
      simp only [lookNotice, hpath] at h
      split at h
      · rename_i l hload
        cases h
        exact ⟨call, reason, s', refreshes, l, rfl, hpath, hload, rfl⟩
      · cases h

end Attempter

/-- The act leaves the start of the stretch of looks and whether it was told, whatever else it does
to the ledger. -/
def Act.KeepsLook (path : String) (s : Attempter) : Act → Prop
  | .capture call => ∀ f, call.coreLedger = some f → KeepsStretch path s.ledger f
  | .look call => ∀ f, call.coreLedger = some f → KeepsStretch path s.ledger f
  | .between next => KeepsStretch path s.ledger next.ledger

namespace Attempter

/-- Each act of the run leaves the stretch of looks. -/
def KeepLook (path : String) (iso : Iso) (settings : AttemptSettings) : Attempter → List Act → Prop
  | _, [] => True
  | s, a :: todo =>
    a.KeepsLook path s ∧ KeepLook path iso settings (act path iso settings s a).attempter todo

theorem act_keepsLook {s : Attempter} {a : Act} (ha : a.KeepsLook path s)
    (hnotice : lookNotice path iso settings s a = none) :
    KeepsLook path s (act path iso settings s a).attempter := by
  cases a with
  | capture call =>
    obtain ⟨hsince, hledger⟩ := attemptCapture_looks path iso settings call s
    exact ⟨hsince, hledger.keepsStretch ha⟩
  | between next => exact ⟨rfl, ha⟩
  | look call =>
    have hlooks := lookPath_looks path iso settings call s
    have hkeeps : KeepsLook path s (lookPath path iso settings call s).state :=
        ⟨hlooks.1, hlooks.2.keepsStretch ha⟩
    cases hpath : lookPath path iso settings call s with
    | done result =>
      rw [hpath] at hkeeps
      simp only [act, attemptLook, hpath]
      exact hkeeps
    | marks reason s' refreshes =>
      rw [hpath] at hkeeps
      have hunread : ∀ l, call.mark.io.load path s'.ledger ≠ .ok (some l) := by
        intro l hload
        simp [lookNotice, hpath, hload] at hnotice
      obtain ⟨-, hsince, hfile⟩ :=
        markInconclusive_unread iso settings reason s'.alerting hunread
      have hmark : KeepsLook path s (mark path iso settings reason call.mark s').attempter := by
        refine ⟨hsince.trans hkeeps.alertedSince, ?_⟩
        simp only [mark, hfile]
        exact hkeeps.ledger
      exact hmark.trans (attemptLook_marks hpath).2

theorem looks_follow {todo : List Act} (s : Attempter) (htodo : KeepLook path iso settings s todo)
    (hholds : Holds path iso r s.alerting s.ledger) :
    Follows settings r (log path iso settings (lookNotice path iso settings) s todo) := by
  induction todo generalizing s r with
  | nil => trivial
  | cons a todo ih =>
    obtain ⟨ha, htodo⟩ := htodo
    rw [log]
    cases hnotice : lookNotice path iso settings s a with
    | none =>
      have hkeeps := act_keepsLook ha hnotice
      exact ih _ htodo (hholds.keeps hkeeps.ledger hkeeps.alertedSince)
    | some n =>
      obtain ⟨call, reason, s', refreshes, l, rfl, hpath, hload, rfl⟩ := lookNotice_some hnotice
      have hlooks := lookPath_looks path iso settings call s
      have hkeeps : KeepsLook path s (lookPath path iso settings call s).state :=
          ⟨hlooks.1, hlooks.2.keepsStretch ha⟩
      rw [hpath] at hkeeps
      have hbefore : Holds path iso r s'.alerting s'.ledger :=
        hholds.keeps hkeeps.ledger hkeeps.alertedSince
      obtain ⟨htells, hafter⟩ := hbefore.mark settings reason hload
      obtain ⟨hsent, hrefreshed⟩ := attemptLook_marks hpath
      refine ⟨?_, ih _ htodo (hafter.keeps hrefreshed.ledger hrefreshed.alertedSince)⟩
      rw [hsent]
      exact htells

end Attempter

/-! ### What leaves an attempt is no error of the store -/

/-- The errors of a load: the ledger is unreadable, or an error of Python's own. -/
def LoadError (e : StoreError) : Prop := (∃ message, e = .unreadable message) ∨ ∃ p, e = .python p

theorem bind_loadError {α β : Type} {x : Except StoreError α} {f : α → Except StoreError β}
    (hx : ∀ e, x = .error e → LoadError e) (hf : ∀ a e, f a = .error e → LoadError e) :
    ∀ e, x >>= f = .error e → LoadError e := by
  intro e h
  cases x with
  | error e' =>
    cases h
    exact hx _ rfl
  | ok a => exact hf a e h

theorem readCount_loadError (d : Dict) (key : String) :
    ∀ e, readCount d key = .error e → LoadError e := by
  intro e h
  unfold readCount at h
  split at h
  · split at h
    · cases h
      exact .inl ⟨_, rfl⟩
    · cases h
  · cases h
    exact .inl ⟨_, rfl⟩

theorem readFlag_loadError (d : Dict) (key : String) :
    ∀ e, readFlag d key = .error e → LoadError e := by
  intro e h
  unfold readFlag at h
  split at h
  · cases h
  · cases h
    exact .inl ⟨_, rfl⟩

theorem readText_loadError (d : Dict) (key : String) :
    ∀ e, readText d key = .error e → LoadError e := by
  intro e h
  unfold readText at h
  split at h
  · cases h
  · cases h
  · cases h
    exact .inl ⟨_, rfl⟩

theorem requireFinite_loadError (x : PyNumber) (message : String) :
    ∀ e, requireFinite x (.unreadable message) = .error e → LoadError e := by
  intro e h
  unfold requireFinite at h
  split at h
  · cases h
  · cases h
    exact .inl ⟨_, rfl⟩
  · cases h
    exact .inr ⟨_, rfl⟩

theorem readAlpha_loadError (d : Dict) : ∀ e, readAlpha d = .error e → LoadError e := by
  intro e h
  unfold readAlpha at h
  split at h
  · cases h
    exact .inl ⟨_, rfl⟩
  · refine bind_loadError (requireFinite_loadError _ _) (fun _ e h => ?_) e h
    split at h
    · cases h
      exact .inl ⟨_, rfl⟩
    · cases h

theorem readSeconds_loadError (d : Dict) : ∀ e, readSeconds d = .error e → LoadError e := by
  intro e h
  unfold readSeconds at h
  split at h
  · cases h
    exact .inl ⟨_, rfl⟩
  · split at h
    · cases h
      exact .inl ⟨_, rfl⟩
    · exact bind_loadError (requireFinite_loadError _ _) (fun _ e h => by cases h) e h

theorem fromDict_loadError (d : Dict) : ∀ e, Ledger.fromDict d = .error e → LoadError e := by
  unfold Ledger.fromDict
  dsimp only
  split
  · intro e h
    cases h
    exact .inl ⟨_, rfl⟩
  · refine bind_loadError (readCount_loadError _ _) fun _ => ?_
    refine bind_loadError (readAlpha_loadError _) fun _ => ?_
    refine bind_loadError (readSeconds_loadError _) fun _ => ?_
    refine bind_loadError (readCount_loadError _ _) fun _ => ?_
    refine bind_loadError (readFlag_loadError _ _) fun _ => ?_
    refine bind_loadError (readFlag_loadError _ _) fun _ => ?_
    refine bind_loadError (readText_loadError _ _) fun _ => ?_
    refine bind_loadError (readText_loadError _ _) fun _ => ?_
    refine bind_loadError (readText_loadError _ _) fun _ => ?_
    refine bind_loadError (readText_loadError _ _) fun _ => ?_
    refine bind_loadError (readText_loadError _ _) fun _ => ?_
    refine bind_loadError (readText_loadError _ _) fun _ => ?_
    refine bind_loadError (readText_loadError _ _) fun _ e h => ?_
    cases h

theorem load_loadError (call : FlushCall) (path : String) (file : LedgerFile) :
    ∀ e, call.load path file = .error e → LoadError e := by
  intro e h
  unfold FlushCall.load at h
  split at h
  · cases h
    exact .inr ⟨_, rfl⟩
  · split at h
    · cases h
    · cases h
      exact .inl ⟨_, rfl⟩
    · unfold loadLedger at h
      split at h
      · cases h
      · cases h
        exact .inl ⟨_, rfl⟩
      · rename_i d _
        cases hd : Ledger.fromDict d with
        | error e' =>
          simp only [hd, Except.map] at h
          cases h
          exact fromDict_loadError d _ hd
        | ok l => simp [hd, Except.map] at h
      · cases h
        exact .inl ⟨_, rfl⟩

/-- What is raised, if anything is, is an error of Python's own. -/
def Escapes (raised : Option StoreError) : Prop := ∀ e, raised = some e → ∃ p, e = .python p

theorem Escapes.none : Escapes none := fun _ h => by cases h

theorem Escapes.osError : Escapes (some (.python .osError)) :=
  fun e h => ⟨.osError, by cases h; rfl⟩

theorem LoadError.escapes {e : StoreError} (h : LoadError e)
    (hreads : ∀ message, e ≠ .unreadable message) : Escapes (some e) := by
  intro e' he'
  cases he'
  rcases h with ⟨message, rfl⟩ | hpython
  · exact absurd rfl (hreads message)
  · exact hpython

theorem refreshState_escapes (path : String) (refresh : FlushCall) (s : Alerting)
    (file : LedgerFile) : Escapes (refreshState path refresh s file).2 := by
  unfold refreshState
  split
  · split
    · exact .osError
    · exact .none
  · rename_i e hreads hload
    exact (load_loadError refresh path file e hload).escapes fun message h => hreads message h
  · split
    · exact .osError
    · exact .none

theorem flushLived_escapes (path : String) (p : Scheduler) (file : LedgerFile) (call : FlushCall) :
    Escapes (flushLived path p file call).raised := by
  unfold flushLived
  split
  · exact .none
  · rename_i e hreads hload
    exact (load_loadError call path file e hload).escapes fun message h => hreads message h
  · exact .none
  · split
    · exact .none
    · dsimp only
      split
      · rename_i e _
        cases e with
        | python p => exact fun e h => ⟨p, by cases h; rfl⟩
        | store | unreadable | regression => exact .none
      · split
        · exact .osError
        · exact .none

theorem readableLedger_escapes {call : FlushCall} {file : LedgerFile} {e : StoreError}
    (h : readableLedger path call file = .error e) : Escapes (some e) := by
  unfold readableLedger at h
  split at h
  · cases h
  · rename_i hreads
    exact (load_loadError call path file e h).escapes fun message hm => hreads message (hm ▸ h)

theorem markInconclusive_escapes (path : String) (iso : Iso) (settings : AttemptSettings)
    (reason : Option String)
    (call : MarkCall) (s : Alerting) (file : LedgerFile) :
    Escapes (markInconclusive path iso settings reason call s file).raised := by
  unfold markInconclusive
  split
  · exact .none
  · rename_i e hreads hload
    exact (load_loadError call.io path file e hload).escapes fun message h => hreads message h
  · exact .none
  · dsimp only
    split
    · split
      · rename_i e _
        exact fun e' h => ⟨e, by cases h; rfl⟩
      · exact refreshState_escapes _ _ _ _
    · exact refreshState_escapes _ _ _ _

namespace Attempter

/-- What an attempt that ends without a failure to note, or without a mark, raises. -/
def doneEscapes : CapturePath → Prop
  | .done result => Escapes result.raised
  | .fails .. => True

def lookDoneEscapes : LookPath → Prop
  | .done result => Escapes result.raised
  | .marks .. => True

theorem capturePath_escapes (path : String) (settings : AttemptSettings) (call : CaptureCall)
    (s : Attempter) : doneEscapes (capturePath path settings call s) := by
  unfold capturePath
  split
  · dsimp only
    split
    · rename_i e he
      exact he ▸ refreshState_escapes _ _ _ _
    · trivial
  · dsimp only
    split
    · rename_i e he
      exact he ▸ flushLived_escapes _ _ _ _
    · split
      · exact refreshState_escapes _ _ _ _
      · trivial
      · trivial
      · exact refreshState_escapes _ _ _ _

theorem attemptCapture_escapes (path : String) (iso : Iso) (settings : AttemptSettings)
    (call : CaptureCall) (s : Attempter) :
    Escapes (attemptCapture path iso settings call s).raised := by
  have hpath := capturePath_escapes path settings call s
  unfold attemptCapture
  split
  · rename_i result hresult
    rw [hresult] at hpath
    exact hpath
  · exact .none

theorem lookAllowed_escapes (path : String) (settings : AttemptSettings) (call : LookCall)
    (s : Attempter) : lookDoneEscapes (lookAllowed path settings call s) := by
  unfold lookAllowed
  split
  · dsimp only
    split
    · rename_i e he
      exact he ▸ refreshState_escapes _ _ _ _
    · split
      · trivial
      · exact refreshState_escapes _ _ _ _
  · dsimp only
    split
    · rename_i e he
      exact he ▸ flushLived_escapes _ _ _ _
    · split
      · rename_i e he
        exact readableLedger_escapes he
      · split
        · split
          · rename_i e he
            exact readableLedger_escapes he
          · split
            · exact refreshState_escapes _ _ _ _
            · trivial
        · exact refreshState_escapes _ _ _ _
        · trivial
        · exact refreshState_escapes _ _ _ _

theorem lookPath_escapes (path : String) (iso : Iso) (settings : AttemptSettings) (call : LookCall)
    (s : Attempter) : lookDoneEscapes (lookPath path iso settings call s) := by
  have hallowed := lookAllowed_escapes path settings call s
  unfold lookPath
  split
  · exact refreshState_escapes _ _ _ _
  · split
    · rename_i e he
      exact readableLedger_escapes he
    · exact hallowed
    · split
      · exact refreshState_escapes _ _ _ _
      · split
        · exact refreshState_escapes _ _ _ _
        · exact hallowed

theorem attemptLook_escapes (path : String) (iso : Iso) (settings : AttemptSettings)
    (call : LookCall) (s : Attempter) : Escapes (attemptLook path iso settings call s).raised := by
  have hpath := lookPath_escapes path iso settings call s
  unfold attemptLook
  split
  · rename_i result hresult
    rw [hresult] at hpath
    exact hpath
  · dsimp only
    split
    · exact refreshState_escapes _ _ _ _
    · exact markInconclusive_escapes _ _ _ _ _ _ _

/-- A failing capture is attempted again, whatever failed in the attempt. -/
theorem attemptCapture_retries (path : String) (iso : Iso) (settings : AttemptSettings)
    {call : CaptureCall} {s : Attempter} (hfails : call.fails = true)
    (hdue : s.captureAt.isSome = true) :
    (attemptCapture path iso settings call s).attempter.captureAt.isSome = true := by
  have hpath : (capturePath path settings call s).state.captureAt.isSome = true := by
    unfold capturePath
    split
    · dsimp only
      split
      · rfl
      · rfl
    · rename_i hblocked
      dsimp only
      split
      · exact hdue
      · cases hresult : call.result with
        | referenceExists => simp [CaptureCall.fails, hblocked, hresult] at hfails
        | captured => simp [CaptureCall.fails, hblocked, hresult] at hfails
        | raised ledgerUnreadable => simp [CapturePath.state, maybeReanchor_keeps, backOff]
        | failed reason => simp [CapturePath.state, maybeReanchor_keeps, backOff]
  unfold attemptCapture
  split
  · rename_i result hresult
    rw [hresult] at hpath
    exact hpath
  · rename_i reason s' sent hnoted
    rw [hnoted] at hpath
    exact hpath

/-- What is to be noted raises nothing, whatever fails when it is. -/
theorem attemptCapture_noted_raised {call : CaptureCall} {s s' : Attempter} {reason : String}
    {sent : List Alert}
    (iso : Iso) (hpath : capturePath path settings call s = .fails reason s' sent) :
    (attemptCapture path iso settings call s).raised = none := by
  simp only [attemptCapture, hpath]
  rfl

theorem lookAllowed_retries {call : LookCall} {s s' : Attempter} {reason : Option String}
    {refreshes : Bool} (h : lookAllowed path settings call s = .marks reason s' refreshes) :
    s'.lookDueAt.isSome = true := by
  unfold lookAllowed at h
  split at h
  · dsimp only at h
    split at h
    · cases h
    · split at h
      · cases h
        rfl
      · cases h
  · dsimp only at h
    split at h
    · cases h
    · split at h
      · cases h
      · split at h
        · split at h
          · cases h
          · split at h
            · cases h
            · cases h
              rfl
        · cases h
        · cases h
          rfl
        · cases h

theorem lookPath_retries {call : LookCall} {s s' : Attempter} {reason : Option String}
    {refreshes : Bool} (h : lookPath path iso settings call s = .marks reason s' refreshes) :
    s'.lookDueAt.isSome = true := by
  unfold lookPath at h
  split at h
  · cases h
  · split at h
    · cases h
    · exact lookAllowed_retries h
    · split at h
      · cases h
      · split at h
        · cases h
        · exact lookAllowed_retries h

/-- A look that is marked is attempted again, whatever fails in the mark. -/
theorem attemptLook_retries {call : LookCall} {s s' : Attempter} {reason : Option String}
    {refreshes : Bool} (hpath : lookPath path iso settings call s = .marks reason s' refreshes) :
    (attemptLook path iso settings call s).attempter.lookDueAt.isSome = true := by
  have hdue := lookPath_retries hpath
  simp only [attemptLook, hpath]
  split
  · exact hdue
  · exact hdue

end Attempter

/-- The times at which an act reads the clock for a stretch. -/
def Act.times : Act → List ℤ
  | .capture call => [call.note.now]
  | .look call => [call.mark.now, call.mark.later]
  | .between _ => []

theorem Running.since_lt {t now : ℤ} (hsince : r.since = some t)
    (hdue : r.due settings now = true) : t < now := by
  rw [due, hsince, Option.all_some, decide_eq_true_eq] at hdue
  have hpos := settings.alert_pos.trans_le hdue
  unfold elapsed at hpos
  have hnum : (0 : ℚ) < ((now - t : ℤ) : ℚ) := by
    by_contra hle
    exact absurd hpos (not_lt.mpr (div_nonpos_of_nonpos_of_nonneg (not_lt.mp hle) (by norm_num)))
  have hint : 0 < now - t := by exact_mod_cast hnum
  omega

namespace Attempter

/-- The start that was last alerted is earlier than the act that alerted it. -/
theorem act_alertedSince (path : String) (iso : Iso) (settings : AttemptSettings) (s : Attempter)
    (a : Act) : (act path iso settings s a).attempter.alerting.alertedSince =
      s.alerting.alertedSince ∨ ∃ since,
        (act path iso settings s a).attempter.alerting.alertedSince = some since ∧
        ∀ u, iso.parse since = some u → ∃ t ∈ a.times, u < t := by
  cases a with
  | capture call => exact .inl (attemptCapture_looks path iso settings call s).1
  | between next => exact .inl rfl
  | look call =>
    have hlooks := (lookPath_looks path iso settings call s).1
    cases hpath : lookPath path iso settings call s with
    | done result =>
      rw [hpath] at hlooks
      simp only [act, attemptLook, hpath]
      exact .inl hlooks
    | marks reason s' refreshes =>
      rw [hpath] at hlooks
      have hafter := (attemptLook_marks hpath).2.alertedSince
      by_cases hreads : ∃ l, call.mark.io.load path s'.ledger = .ok (some l)
      · obtain ⟨l, hload⟩ := hreads
        have hsince := (markInconclusive_does iso settings reason s'.alerting hload).2.1
        cases htold : stretchTold iso settings call.mark s'.alerting l with
        | false =>
          rw [htold, if_neg Bool.false_ne_true] at hsince
          exact .inl (hafter.trans (hsince.trans hlooks))
        | true =>
          rw [htold, if_pos rfl] at hsince
          refine .inr ⟨stretchStart iso call.mark l, hafter.trans hsince,
            fun u hu => ⟨call.mark.later, ?_, ?_⟩⟩
          · simp [Act.times]
          · rw [stretchTold_attempt, Running.attempt] at htold
            simp only [Bool.and_eq_true] at htold
            exact Running.since_lt (r := lookRunning iso call.mark s'.alerting l) hu htold.1.1
      · push Not at hreads
        have hsince := (markInconclusive_unread iso settings reason s'.alerting hreads).2.1
        exact .inl (hafter.trans (hsince.trans hlooks))

theorem acts_alertedSince (path : String) (iso : Iso) (settings : AttemptSettings) {s : Attempter}
    (hs : s.alerting.alertedSince = none) (todo : List Act) {since : String} {u : ℤ}
    (hsince : (acts path iso settings s todo).alerting.alertedSince = some since)
    (hu : iso.parse since =
      some u) :
    ∃ t ∈ todo.flatMap Act.times, u < t := by
  induction todo using List.reverseRecOn with
  | nil =>
    rw [acts, List.foldl_nil, hs] at hsince
    cases hsince
  | append_singleton todo a ih =>
    rw [acts, List.foldl_append, List.foldl_cons, List.foldl_nil] at hsince
    rw [List.flatMap_append, List.flatMap_singleton]
    rcases act_alertedSince path iso settings (acts path iso settings s todo)
      a with hsame | ⟨since', hsome, htimes⟩
    · obtain ⟨t, ht, hlt⟩ := ih (hsame.symm.trans hsince)
      exact ⟨t, List.mem_append_left _ ht, hlt⟩
    · obtain rfl : since' = since := Option.some.inj (hsome.symm.trans hsince)
      obtain ⟨t, ht, hlt⟩ := htimes u hu
      exact ⟨t, List.mem_append_right _ ht, hlt⟩

end Attempter

/-- The stretch that begins with a failing capture: what the record says, if there is one and it
loads. -/
theorem captureRunning_of_none {s : Attempter} (h : s.alerting.stretch = none) (call : NoteCall) :
    captureRunning iso call s.alerting s.stretch = captureBegin iso call s.stretch := by
  rw [captureRunning, captureView, h]
  rfl

/-- The stretch that begins with a mark: since the start in the ledger, or since this mark. -/
def lookBegin (iso : Iso) (call : MarkCall) (l : Ledger) : Running :=
  ⟨l.inconclusiveSince.elim (some call.now) iso.parse, l.inconclusiveAlerted⟩

theorem lookRunning_begin {call : MarkCall} {s : Alerting} {l : Ledger}
    (h : s.alertedSince ≠ some (stretchStart iso call l)) :
    lookRunning iso call s l = lookBegin iso call l := by
  rw [lookRunning, lookBegin, decide_eq_false h, Bool.or_false, stretchStart]
  cases l.inconclusiveSince with
  | none => rw [Option.getD_none, iso.parse_format, Option.elim_none]
  | some since => rw [Option.getD_some, Option.elim_some]

/-- The file stores no ledger without the start of a stretch. -/
def StartSaved (path : String) (file : LedgerFile) : Prop :=
  ∀ l, Stored path file l → l.inconclusiveSince ≠ none

namespace Attempter

theorem attemptLook_ledger {call : LookCall} {s s' : Attempter} {reason : Option String}
    {refreshes : Bool} (hpath : lookPath path iso settings call s = .marks reason s' refreshes) :
    (attemptLook path iso settings call s).attempter.ledger =
      (mark path iso settings reason call.mark s').attempter.ledger := by
  simp only [attemptLook, hpath]
  split <;> rfl

/-- A process has alerted no start that the clock has not passed. -/
theorem alertedSince_ne (path : String) (iso : Iso) (settings : AttemptSettings) {start : Attempter}
    (hstart : start.alerting.alertedSince = none) {earlier todo : List Act}
    {call : LookCall} (hclock : ((earlier ++ .look call :: todo).flatMap Act.times).Pairwise
      (· ≤ ·)) {l : Ledger}
    (hbegins : l.inconclusiveSince = none ∨ earlier = []) :
    (acts path iso settings start earlier).alerting.alertedSince ≠
      some (stretchStart iso call.mark l) := by
  intro hsome
  rcases hbegins with hnone | rfl
  · have hparse : iso.parse (stretchStart iso call.mark l) = some call.mark.now := by
      rw [stretchStart, hnone, Option.getD_none, iso.parse_format]
    obtain ⟨t, ht, hlt⟩ := acts_alertedSince path iso settings hstart earlier hsome hparse
    rw [List.flatMap_append, List.pairwise_append] at hclock
    have hle := hclock.2.2 t ht call.mark.now (by simp [Act.times])
    omega
  · rw [acts, List.foldl_nil, hstart] at hsome
    cases hsome

end Attempter

/-- The operator is told of a stretch by its first attempt that is due and at which sending does not
fail, and only by that one: of a stretch of failing captures whatever loads and saves fail, and of a
stretch of looks whose start is stored, at the attempts at which the ledger reads. Each attempt is
made again, and none raises an error of the store. -/
theorem stretches_reported (path : String) (iso : Iso) (settings : AttemptSettings)
    (start : Attempter) (hstart : start.alerting.alertedSince = none) (earlier : List Act) :
    (∀ call todo reason s' sent,
      (Attempter.acts path iso settings start earlier).alerting.stretch = none →
      Attempter.capturePath path settings call (Attempter.acts path iso settings start earlier) =
        .fails reason s' sent →
      (∀ a ∈ .capture call :: todo, a.KeepsCapture) →
      Reported settings (captureBegin iso call.note
        (Attempter.acts path iso settings start earlier).stretch)
          (Attempter.log path iso settings (Attempter.captureNotice path iso settings)
          (Attempter.acts path iso settings start earlier) (.capture call :: todo))) ∧
    (∀ call todo reason s' refreshes l,
      ((earlier ++ .look call :: todo).flatMap Act.times).Pairwise (· ≤ ·) →
      Attempter.lookPath path iso settings call (Attempter.acts path iso settings start earlier) =
        .marks reason s' refreshes →
      call.mark.io.load path s'.ledger = .ok (some l) →
      l.inconclusiveSince = none ∨ earlier = [] →
      StartSaved path (Attempter.attemptLook path iso settings call
        (Attempter.acts path iso settings start earlier)).attempter.ledger →
      Attempter.KeepLook path iso settings (Attempter.attemptLook path iso settings call
        (Attempter.acts path iso settings start earlier)).attempter todo →
      Reported settings (lookBegin iso call.mark l)
        (Attempter.log path iso settings (Attempter.lookNotice path iso settings)
          (Attempter.acts path iso settings start earlier) (.look call :: todo))) ∧
    (∀ call s, call.fails = true → s.captureAt.isSome = true →
      (Attempter.attemptCapture path iso settings call s).attempter.captureAt.isSome = true) ∧
    (∀ call s reason s' sent, Attempter.capturePath path settings call s = .fails reason s' sent →
      (Attempter.attemptCapture path iso settings call s).raised = none) ∧
    (∀ call s reason s' refreshes, Attempter.lookPath path iso settings call s =
      .marks reason s' refreshes →
        (Attempter.attemptLook path iso settings call s).attempter.lookDueAt.isSome = true) ∧
    ∀ s a, Escapes (Attempter.act path iso settings s a).raised := by
  refine ⟨?_, ?_, fun call s hfails hdue =>
    Attempter.attemptCapture_retries path iso settings hfails hdue,
      fun call s reason s' sent hpath => Attempter.attemptCapture_noted_raised iso hpath,
    fun call s reason s' refreshes hpath => Attempter.attemptLook_retries hpath, ?_⟩
  · intro call todo reason s' sent hnone hpath htodo
    obtain ⟨htells, hview⟩ := Attempter.attemptCapture_noted iso (htodo _ List.mem_cons_self) hpath
    rw [captureRunning_of_none hnone] at htells hview
    rw [Attempter.log, Attempter.captureNotice_of_fails hpath]
    refine Follows.reported ⟨htells, ?_⟩
    exact Attempter.captures_follow (fun a ha => htodo a (List.mem_cons_of_mem _ ha)) _ hview
  · intro call todo reason s' refreshes l hclock hpath hload hbegins hsaved hkeep
    have hlooks := (Attempter.lookPath_looks path iso settings call
      (Attempter.acts path iso settings start earlier)).1
    rw [hpath] at hlooks
    have hfresh := Attempter.alertedSince_ne path iso settings hstart hclock hbegins
    have hbegin : lookRunning iso call.mark s'.alerting l = lookBegin iso call.mark l :=
      lookRunning_begin fun hsome => hfresh (hlooks.symm.trans hsome)
    rw [Attempter.attemptLook_ledger hpath] at hsaved
    obtain ⟨htells, hholds⟩ := markInconclusive_holds (s := s'.alerting) reason hload
      fun _ => hsaved
    rw [hbegin] at htells hholds
    obtain ⟨hsent, hafter⟩ := Attempter.attemptLook_marks hpath
    rw [Attempter.log, Attempter.lookNotice_of_marks hpath hload]
    refine Follows.reported ⟨(congrArg tells hsent).trans htells, ?_⟩
    exact Attempter.looks_follow _ hkeep (hholds.keeps hafter.ledger hafter.alertedSince)
  · intro s a
    cases a with
    | capture call => exact Attempter.attemptCapture_escapes path iso settings call s
    | look call => exact Attempter.attemptLook_escapes path iso settings call s
    | between next => exact .none

/-- A number as strokes. -/
def strokes (t : ℤ) : String :=
  String.ofList (List.replicate t.natAbs (if t < 0 then '-' else '+'))

theorem strokes_ne {text : String} (t : ℤ) (h : 'T' ∈ text.toList) : strokes t ≠ text := by
  rintro rfl
  rw [strokes, String.toList_ofList] at h
  have hstroke := List.eq_of_mem_replicate h
  split at hstroke <;> cases hstroke

/-- The epoch and the microsecond after it as `isoformat` writes them; times that no run here has
are strokes. -/
def epochIso : Iso where
  format t :=
    if t = 0 then "1970-01-01T00:00:00+00:00"
    else if t = 1 then "1970-01-01T00:00:00.000001+00:00"
    else strokes t
  parse s :=
    if s = "1970-01-01T00:00:00+00:00" then some 0
    else if s = "1970-01-01T00:00:00.000001+00:00" then some 1
    else some (if s.toList.contains '-' then -s.length else s.length)
  parse_format t := by
    by_cases hzero : t = 0
    · simp [hzero]
    by_cases hone : t = 1
    · simp [hone]
    rw [if_neg hzero, if_neg hone, if_neg (strokes_ne t (by decide)),
      if_neg (strokes_ne t (by decide))]
    by_cases h : t < 0
    · simp [strokes, h, hzero, abs_of_neg h]
    · simp [strokes, h, abs_of_nonneg (not_lt.mp h)]

def shortAlert : AttemptSettings where
  blockedRetryS := 60
  inconclusiveRetryS := 60
  captureRetryInitialS := 60
  captureRetryMaxS := 60
  inconclusiveAlertS := 1 / 1000000
  minLookIntervalS := 0
  minLivedTimeS := 0
  minObservations := 0
  alert_pos := by norm_num

/-- A process that starts with the ledger of ten seconds and what is given as the record. -/
def startWith (stretch : StretchFile) : Attempter where
  counting := .new true true
  captureAt := some 0
  captureBackoff := 60
  ledger := tenSecondsFile
  stretch := stretch

/-- A capture while the entity is asleep. -/
def asleepCapture (now : ℤ) : CaptureCall where
  m := 0
  blocked := some "asleep"
  result := .captured
  ended := 0
  clock := .fails
  paused := .fails
  note := { now }

/-- A look while the entity is asleep, where only the mark reads the ledger. -/
def asleepLook (now : ℤ) : LookCall where
  m := 0
  now := now
  load := { loadReadFails := some "busy" }
  blocked := some "asleep"
  result := .raised
  ended := 0
  mark := { now, later := now }
  refresh := { loadReadFails := some "busy" }

/-- Two captures and two looks of a process that is asleep. -/
theorem stretches_reported_asleep :
    Reported shortAlert ⟨some 0, false⟩
      (Attempter.log "ledger" epochIso shortAlert
        (Attempter.captureNotice "ledger" epochIso shortAlert) (startWith .absent)
          [.capture (asleepCapture 0), .capture (asleepCapture 1)]) ∧
    Reported shortAlert ⟨some 0, false⟩
      (Attempter.log "ledger" epochIso shortAlert
        (Attempter.lookNotice "ledger" epochIso shortAlert) (startWith .absent)
          [.look (asleepLook 0), .look (asleepLook 1)]) := by
  obtain ⟨hcaptures, hlooks, -⟩ :=
    stretches_reported "ledger" epochIso shortAlert (startWith .absent) rfl []
  refine ⟨hcaptures (asleepCapture 0) [.capture (asleepCapture 1)] "asleep" _ [] rfl rfl ?_,
    hlooks (asleepLook 0) [.look (asleepLook 1)] (some "asleep") _ false tenSeconds ?_ rfl ?_
      (.inr rfl) ?_ ?_⟩
  · rw [List.forall_mem_cons, List.forall_mem_singleton]
    exact ⟨rfl, rfl⟩
  · decide
  · rfl
  · have hmarked : (Attempter.attemptLook "ledger" epochIso shortAlert (asleepLook 0)
        (startWith .absent)).attempter.ledger =
          .json (.obj (markedLedger epochIso shortAlert (some "asleep") (asleepLook 0).mark {}
            tenSeconds).toDict) := by
      decide +kernel
    intro l hl
    have hl : Stored "ledger" _ l := hmarked ▸ hl
    rw [stored_unique (.inr rfl) hl]
    exact Option.some_ne_none _
  · refine ⟨fun f hf => ?_, trivial⟩
    cases hf

/-- A record that does not load makes the first failing capture due at once, and the one that comes
when the stretch is long enough tells nothing. -/
theorem faulty_record_alerts :
    ¬ Reported shortAlert ⟨some 0, false⟩
      (Attempter.log "ledger" epochIso shortAlert
        (Attempter.captureNotice "ledger" epochIso shortAlert) (startWith .faulty)
          [.capture (asleepCapture 0), .capture (asleepCapture 1)]) := by
  intro h
  have hlog : Attempter.log "ledger" epochIso shortAlert
      (Attempter.captureNotice "ledger" epochIso shortAlert) (startWith .faulty)
        [.capture (asleepCapture 0), .capture (asleepCapture 1)] = [⟨0, false, true⟩,
          ⟨1, false, false⟩] := by
    decide
  have hfirst := (h.tells_iff [] ⟨0, false, true⟩ [⟨1, false, false⟩] hlog).mp rfl
  exact absurd hfirst.2.1 (by norm_num [Running.due, shortAlert, elapsed])

end Kaine.IndividuationScheduler
