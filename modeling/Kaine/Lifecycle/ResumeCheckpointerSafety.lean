import Kaine.Lifecycle.ResumeCheckpointSafety
import Kaine.Lifecycle.ResumeCheckpointer

/-! When a crash after a rest resumes none, and no more rest is recorded than was spent. -/
namespace Kaine.ResumeCheckpointer
open Py Identity ResumeCheckpoint

variable {isOther : Char → Bool} {cfg : Config isOther} {env : ReadEnv} {s t : State} {a : Action}
  {file : CheckpointFile} {snap : Snapshot} {record : RecordFile} {fault : Option WriteStep}
  {enabled : List String} {now : ℚ} {last : Option ℚ} {c : StateCycle} {spent : Seconds}
  {e d : Dict}
  {work : Work} {final ok : Bool} {r : Reading}

/-- The state cycle entry of the sleep module in a snapshot. -/
def cycleOfSnapshot (snap : Snapshot) : Option Dict :=
  match snap.modules.lookup "sleep" with
  | some (.obj d) =>
    match d.lookup "state_cycle" with
    | some (.obj e) => some e
    | _ => none
  | _ => none

/-- The entry that the checkpoint on disk holds. -/
def cycleEntry (env : ReadEnv) (file : CheckpointFile) : Option Dict :=
  match readCheckpoint env file with
  | .ok (some snap) => cycleOfSnapshot snap
  | _ => none

def isRestingEntry (e : Dict) : Bool := (Dict.get e "phase").pyEq (.str "resting")

def restTime (e : Dict) : Option Seconds :=
  if isRestingEntry e then (num (Dict.get e "rest_spent_s")).toOption.join else none

def holdsResting (env : ReadEnv) (file : CheckpointFile) : Bool :=
  (cycleEntry env file).any isRestingEntry

/-- The rest time that the checkpoint on disk records. -/
def recorded (env : ReadEnv) (file : CheckpointFile) : Option Seconds :=
  (cycleEntry env file).bind restTime

def StateCycle.rest : StateCycle → Option Seconds
  | .awake _ => none
  | .resting spent => some spent

/-- The rest time in a write that is still to be made. -/
def Activity.pending : Activity → Option Seconds
  | .writing work _ => work.cycle.rest
  | _ => none

def Activity.isWaiting : Activity → Bool
  | .waiting => true
  | _ => false

/-- A rest starts only where no time of an earlier one is on disk or on its way there, and a poll
that finds the entity awake beside a resting entry is one that writes: the writer knows of the
entry and is past its back-off, or a save is due. -/
def Fits (cfg : Config isOther) (s : State) : Action → Prop
  | .cycle .start => (recorded cfg.env s.file).all (· = .zero) = true ∧
      s.activity.pending.all (· = .zero) = true
  | .poll r =>
    s.activity.isWaiting = true → r.readsRest = true → s.cycle.isResting = false →
      holdsResting cfg.env s.file = true →
      (s.restMarked = true ∧ s.restRetryAt ≤ s.now) ∨ (cfg.saveDue s r).isSome = true
  | _ => True

instance : (a : Action) → Decidable (Fits cfg s a)
  | .cycle .start => inferInstanceAs (Decidable (_ ∧ _))
  | .poll _ => inferInstanceAs (Decidable (_ → _ → _ → _ → _ ∨ _))
  | .cycle (.accrue _) | .cycle (.rest _) | .cycle .finish | .clock _ | .threadWrites _ _
  | .threadReturns _ | .writeFinal _ | .restart _ _ _ _ => isTrue trivial

/-- No key of the checkpoint's modules is there twice, as in any dict. -/
def Distinct (env : ReadEnv) (file : CheckpointFile) : Prop :=
  ∀ snap, readCheckpoint env file = .ok (some snap) → (snap.modules.map Prod.fst).Nodup

/-- The first process starts beside some checkpoint, or none. -/
def Initial (cfg : Config isOther) (s : State) : Prop :=
  ∃ file record enabled now last, Distinct cfg.env file ∧
    s = cfg.boot record enabled now last file

/-- What is promised: no resting entry after a poll that found the entity awake and could write,
and no more rest on disk than was spent. -/
structure Kept (cfg : Config isOther) (s : State) : Prop where
  awake : s.poll.completed = true → s.poll.foundAwake = true → s.poll.writesOk = true →
    holdsResting cfg.env s.file = false
  spent : ∀ spent, s.cycle = .resting spent → ∀ spent', recorded cfg.env s.file = some spent' →
    spent' ≤ spent

theorem mapModuleKey_idem (key : String) :
    mapModuleKey (mapModuleKey key) = mapModuleKey key := by
  unfold mapModuleKey
  cases h : modules.lookup key with
  | none => simp [h]
  | some new =>
    have hmem := Assoc.mem_of_lookup_eq_some h
    have hnew : ∀ row ∈ modules, (modules.lookup row.2).getD row.2 = row.2 := by decide
    exact hnew _ hmem

/-- After the rename of its keys a table has current keys only. -/
theorem current_mapModuleKeys {k : String} (h : k ∈ (mapModuleKeys d).map Prod.fst) :
    mapModuleKey k = k := by
  have hfold : ∀ (old result : Dict), (∀ k ∈ result.map Prod.fst, mapModuleKey k = k) →
      ∀ k ∈ (old.foldl (fun result kv =>
        if Dict.has result (mapModuleKey kv.1) then result
        else Dict.set result (mapModuleKey kv.1) kv.2) result).map Prod.fst,
      mapModuleKey k = k := by
    intro old
    induction old with
    | nil => exact fun result hresult => hresult
    | cons kv old ih =>
      intro result hresult
      apply ih
      dsimp only
      split
      · exact hresult
      · rename_i hnew
        have hnone : result.lookup (mapModuleKey kv.1) = none :=
          Option.not_isSome_iff_eq_none.mp hnew
        intro k hk
        rw [Dict.set, Assoc.assign_of_lookup_eq_none hnone, List.map_append] at hk
        rcases List.mem_append.mp hk with hk | hk
        · exact hresult k hk
        · obtain rfl : k = mapModuleKey kv.1 := by simpa using hk
          exact mapModuleKey_idem kv.1
  refine hfold _ _ ?_ k h
  intro k hk
  obtain ⟨kv, hkv, rfl⟩ := List.mem_map.mp hk
  simpa using (List.mem_filter.mp hkv).2

/-- A checkpoint that reads can be written back and read again. -/
theorem readable_of_read (hdistinct : Distinct env file)
    (h : readCheckpoint env file = .ok (some snap)) : Readable snap := by
  have hnodup := hdistinct snap h
  unfold readCheckpoint at h
  split at h
  · cases h
  · rename_i data
    split at h
    · cases h
    · rename_i snap' hread
      split_ifs at h with hkind hversion
      obtain rfl : snap' = snap := by simpa using h
      refine ⟨?_, hnodup, by simpa using hkind, by simpa using hversion⟩
      intro k hk
      simp only [Snapshot.fromDict] at hread
      obtain ⟨timestamp, -, hread⟩ := bind_eq_ok.mp hread
      obtain ⟨modules, -, hread⟩ := bind_eq_ok.mp hread
      obtain ⟨adapters, -, hread⟩ := bind_eq_ok.mp hread
      obtain ⟨metadata, -, hread⟩ := bind_eq_ok.mp hread
      have hmodules : snap'.modules = mapModuleKeys modules := by
        have heq := Except.ok.inj hread
        rw [← heq]
      rw [hmodules] at hk
      exact current_mapModuleKeys hk
  all_goals cases h

theorem num_seconds (spent : Seconds) : num (.float (.fin spent)) = .ok (some spent) := by
  have hnum : num (.float (.fin spent)) =
      (PyNumber.toFloat (.float (.fin spent))).map Seconds.ofFloat := rfl
  simp [hnum, Except.map]

/-- The entry on disk is absent or says what a cycle says. -/
def EntryFits (env : ReadEnv) (file : CheckpointFile) (c : StateCycle) : Prop :=
  ∀ e, cycleEntry env file = some e → isRestingEntry e = c.isResting ∧ restTime e = c.rest

theorem exported_fits (c : StateCycle) :
    isRestingEntry c.exported = c.isResting ∧ restTime c.exported = c.rest := by
  cases c with
  | awake awakeS => exact ⟨rfl, rfl⟩
  | resting spent =>
    refine ⟨rfl, ?_⟩
    have hget : Dict.get (StateCycle.resting spent).exported "rest_spent_s" = .float (.fin spent) :=
      rfl
    have hresting : isRestingEntry (StateCycle.resting spent).exported = true := rfl
    simp [restTime, hget, hresting, num_seconds, Except.toOption, StateCycle.rest]

/-- What an update in place writes for a cycle: the awake time is left out. -/
theorem restEntry_exported (c : StateCycle) :
    ∃ c' : StateCycle, restEntry c.exported = .ok (some c'.exported) ∧
      c'.isResting = c.isResting ∧ c'.rest = c.rest := by
  cases c with
  | awake awakeS => exact ⟨.fresh, rfl, rfl, rfl⟩
  | resting spent =>
    refine ⟨.resting spent, ?_, rfl, rfl⟩
    have hget : Dict.get (StateCycle.resting spent).exported "rest_spent_s" = .float (.fin spent) :=
      rfl
    have hphase : (Dict.get (StateCycle.resting spent).exported "phase").pyEq (.str "resting") =
      true :=
      rfl
    have hnonneg : ¬ (spent : ℚ) < 0 := not_lt.mpr spent.2.1
    have hspent : restSpent (.float (.fin spent)) = .ok (some (.fin spent)) := by
      simp [restSpent, Json.asPyNumber, PyNumber.isFinite, PyNumber.value, hnonneg, Except.map,
        PyFloat.isFinite, PyFloat.lt, bind, Except.bind, pure, Except.pure]
    rw [restEntry, if_pos hphase, hget, hspent]
    rfl

/-- A file that was written whole or cut short says what was written, or nothing. -/
theorem entryFits_write (h : Readable snap)
    (hentry : ∀ e, cycleOfSnapshot snap = some e → isRestingEntry e = c.isResting ∧
      restTime e = c.rest) :
    EntryFits env (writeCheckpoint file snap fault).file c ∨
      (writeCheckpoint file snap fault).file = file ∧
        (writeCheckpoint file snap fault).result.isOk = false := by
  cases fault with
  | none =>
    left
    intro e he
    obtain ⟨snap', hread, hmodules, -⟩ := readCheckpoint_toDict env h
    simp only [writeCheckpoint, cycleEntry, hread] at he
    apply hentry
    rwa [cycleOfSnapshot, ← hmodules]
  | some fault =>
    cases fault with
    | shortWrite =>
      left
      intro e he
      simp [writeCheckpoint, cycleEntry, readCheckpoint] at he
    | makeDir | encode | openTemp | write | fsync | replace => exact .inr ⟨rfl, rfl⟩

theorem distinct_write (h : Readable snap) (hdistinct : Distinct env file) :
    Distinct env (writeCheckpoint file snap fault).file := by
  cases fault with
  | none =>
    intro snap'' hread''
    obtain ⟨snap', hread, hmodules, -⟩ := readCheckpoint_toDict env h
    obtain rfl : snap' = snap'' := by
      simp only [writeCheckpoint] at hread''
      simpa [hread] using hread''
    rw [hmodules]
    exact h.nodup
  | some fault =>
    cases fault with
    | shortWrite =>
      intro snap'' hread''
      simp [writeCheckpoint, readCheckpoint] at hread''
    | makeDir | encode | openTemp | write | fsync | replace => exact hdistinct

/-- The snapshot of an update in place is one that reads, with the new entry. -/
theorem withStateCycle_spec {old : Snapshot} (h : Readable old)
    (hupdate : old.withStateCycle e = some snap) :
    Readable snap ∧ cycleOfSnapshot snap = some e := by
  unfold Snapshot.withStateCycle at hupdate
  split at hupdate
  · rename_i d hget
    obtain rfl := Option.some.inj hupdate
    have hmem : "sleep" ∈ old.modules.map Prod.fst := by
      cases hl : old.modules.lookup "sleep" with
      | none => simp [Dict.get, hl] at hget
      | some v => exact List.mem_map_of_mem (Assoc.mem_of_lookup_eq_some hl)
    have hkeys : ∀ v, (Dict.set old.modules "sleep" v).map Prod.fst = old.modules.map Prod.fst :=
      fun v => Assoc.assign_keys hmem v
    refine ⟨⟨?_, ?_, h.kind, h.version⟩, ?_⟩
    · simp only [hkeys]
      exact h.current
    · simp only [hkeys]
      exact h.nodup
    · simp [cycleOfSnapshot]
  · cases hupdate

/-- A snapshot to be written reads back, and says what its cycle says. -/
def Work.Fits : Work → Prop
  | .sync _ => True
  | .save snap c => Readable snap ∧ ∀ e, cycleOfSnapshot snap = some e →
      isRestingEntry e = c.isResting ∧ restTime e = c.rest

theorem capture_fits (capture : Capture) (c : StateCycle) (identity : EntityIdentity isOther) :
    (Work.save (captureCheckpoint capture.env (capture.registry c).modules identity) c).Fits := by
  refine ⟨readable_capture _ _ _, ?_⟩
  intro e he
  unfold cycleOfSnapshot at he
  split at he
  · rename_i d hlookup
    obtain ⟨m, hm, hcapture⟩ := List.mem_filterMap.mp (Assoc.mem_of_lookup_eq_some hlookup)
    have hname : "sleep" = m.name := captureModule_key hcapture
    have hstate : m.serialize = .dict d := by
      have hkeeps : excluded m.name = false := by
        rw [← hname]
        decide
      cases hs : m.serialize with
      | dict state =>
        have hd : carry m.name (dropTransient m.name state) = d := by
          simpa [captureModule, hkeeps, hs] using congrArg (Option.map Prod.snd) hcapture
        rw [← hname] at hd
        exact congrArg Serialized.dict hd
      | raises | notDict => simp [captureModule, hkeeps, hs] at hcapture
    rw [capture.reports c m hm hname.symm d hstate] at he
    obtain rfl := Option.some.inj he
    exact exported_fits c
  · cases he

/-- A write in a thread leaves what it was given, or fails and leaves the file. -/
theorem threadWrites_spec (record : RecordFile) (fault : Option WriteStep) (hwork : work.Fits)
    (hdistinct : Distinct cfg.env s.file) :
    Distinct cfg.env (cfg.threadWrites s record fault work).2 ∧
      (EntryFits cfg.env (cfg.threadWrites s record fault work).2 work.cycle ∨
        (cfg.threadWrites s record fault work).2 = s.file ∧
          (cfg.threadWrites s record fault work).1 = false) := by
  cases work with
  | save snap c => exact ⟨distinct_write hwork.1 hdistinct, entryFits_write hwork.1 hwork.2⟩
  | sync c =>
    obtain ⟨c', hentry, hresting, hrest⟩ := restEntry_exported c
    simp only [Config.threadWrites, updateStateCycleEntry, hentry]
    split
    · exact ⟨hdistinct, .inr ⟨rfl, rfl⟩⟩
    · rename_i snap hsnap
      obtain ⟨old, husable, hupdate⟩ := Option.bind_eq_some_iff.mp hsnap
      have hold := readable_of_read hdistinct (usableCheckpoint_eq_some.mp husable).1
      obtain ⟨hsnap, hcycle⟩ := withStateCycle_spec hold hupdate
      refine ⟨distinct_write hsnap hdistinct, entryFits_write hsnap ?_⟩
      intro e he
      obtain rfl := Option.some.inj (hcycle.symm.trans he)
      obtain ⟨hr, ht⟩ := exported_fits c'
      exact ⟨hr.trans hresting, ht.trans hrest⟩

theorem EntryFits.not_resting (h : EntryFits env file c) (hc : c.isResting = false) :
    holdsResting env file = false := by
  unfold holdsResting
  cases he : cycleEntry env file with
  | none => rfl
  | some e => simpa [hc] using (h e he).1

theorem EntryFits.recorded_eq (h : EntryFits env file c) (hr : recorded env file = some spent) :
    c.rest = some spent := by
  obtain ⟨e, he, ht⟩ := Option.bind_eq_some_iff.mp hr
  rw [← (h e he).2, ht]

/-- A cycle that is restored as resting is the one on disk. -/
theorem restoreStateCycle_resting {restLength : ℚ} {raw : Json}
    (h : restoreStateCycle restLength raw = .ok (.resting spent)) :
    ∃ e, raw = .obj e ∧ restTime e = some spent := by
  cases raw with
  | obj e =>
    refine ⟨e, rfl, ?_⟩
    simp only [restoreStateCycle] at h
    obtain ⟨awake, -, h⟩ := bind_eq_ok.mp h
    obtain ⟨spent', hspent, h⟩ := bind_eq_ok.mp h
    split at h
    · rename_i hphase
      cases spent' with
      | none => simp [StateCycle.fresh, pure, Except.pure] at h
      | some spent' =>
        have heq : spent' = spent := by
          simp only [pure, Except.pure] at h
          split at h
          · simpa using h
          · simp [StateCycle.fresh] at h
        simp [restTime, isRestingEntry, hphase, hspent, heq, Except.toOption]
    · split at h
      · cases awake <;> simp [StateCycle.fresh, pure, Except.pure] at h
      · simp [StateCycle.fresh, pure, Except.pure] at h
  | null | bool _ | int _ | float _ | str _ | arr _ =>
    simp [restoreStateCycle, StateCycle.fresh] at h

theorem deserializeCycle_resting {restLength : ℚ} {state : Dict}
    (h : deserializeCycle env restLength state = .ok (.resting spent)) :
    ∃ e, state.lookup "state_cycle" = some (.obj e) ∧ restTime e = some spent := by
  obtain ⟨lastSleep, -, h⟩ := Py.bind_eq_ok.mp h
  cases hraw : state.lookup "state_cycle" with
  | none => simp [hraw, StateCycle.fresh, pure, Except.pure] at h
  | some raw =>
    obtain ⟨e, rfl, he⟩ := restoreStateCycle_resting (by simpa [hraw] using h)
    exact ⟨e, rfl, he⟩

/-- The sleep module is handed its own entry of the checkpoint. -/
theorem handed_sleep {raises : Raises} {identity : Option (EntityIdentity isOther)} {state : Dict}
    (hdistinct : Distinct env file)
    (h : (restoreCheckpoint env raises record enabled identity file).1.lookup "sleep" =
      some state) :
    ∃ snap, readCheckpoint env file = .ok (some snap) ∧
      snap.modules.lookup "sleep" = some (.obj state) := by
  unfold restoreCheckpoint at h
  cases husable : usableCheckpoint env record identity file with
  | none => simp [husable] at h
  | some snap =>
    have hread := (usableCheckpoint_eq_some.mp husable).1
    refine ⟨snap, hread, ?_⟩
    simp only [husable] at h
    have hhead : (handedTo (restoreModules raises enabled snap).1 "sleep").head? = some state := by
      rw [handedTo, ← Assoc.lookup_eq_head_filter]
      exact h
    rw [handedTo_restoreModules (hdistinct snap hread)] at hhead
    cases hl : snap.modules.lookup "sleep" with
    | none => simp [hl] at hhead
    | some v =>
      have hpassed : excluded "sleep" = false := by decide
      cases v with
      | obj d =>
        by_cases hmem : enabled.contains "sleep" = true
        · have hd : dropTransient "sleep" (carry "sleep" d) = state := by
            simpa [hl, handling, hpassed, List.contains_iff_mem.mp hmem] using hhead
          have hsame : dropTransient "sleep" (carry "sleep" d) = d := rfl
          rw [← hd, hsame]
        · have hnot : "sleep" ∉ enabled := fun hmem' => hmem (List.contains_iff_mem.mpr hmem')
          simp [hl, handling, hpassed, hnot] at hhead
      | null | bool _ | int _ | float _ | str _ | arr _ =>
        by_cases hmem : "sleep" ∈ enabled <;> simp [hl, handling, hpassed, hmem] at hhead

/-- A process that goes on with a rest goes on with the one on disk. -/
theorem boot_resting (hdistinct : Distinct cfg.env file)
    (h : (cfg.boot record enabled now last file).cycle = .resting spent) :
    recorded cfg.env file = some spent := by
  simp only [Config.boot] at h
  cases hcalls : (restoreCheckpoint cfg.env (fun _ _ => false) record enabled cfg.identity
      file).1.lookup "sleep" with
  | none => simp [hcalls, StateCycle.fresh] at h
  | some state =>
    obtain ⟨snap, hread, hsleep⟩ := handed_sleep hdistinct hcalls
    cases hcycle : deserializeCycle cfg.env cfg.developmentalRestS state with
    | error _ => simp [hcalls, hcycle, Except.toOption, StateCycle.fresh] at h
    | ok c =>
      obtain rfl : c = .resting spent := by
        simpa [hcalls, hcycle, Except.toOption] using h
      obtain ⟨e, hentry, hrest⟩ := deserializeCycle_resting hcycle
      simp [recorded, cycleEntry, hread, cycleOfSnapshot, hsleep, hentry, hrest]

/-- What holds besides in every run: a write that is under way says no more than was spent, and
what the poll has found so far agrees with what it writes. -/
structure Inv (cfg : Config isOther) (s : State) : Prop where
  kept : Kept cfg s
  distinct : Distinct cfg.env s.file
  pending : ∀ spent, s.cycle = .resting spent → ∀ spent', s.activity.pending = some spent' →
    spent' ≤ spent
  writing : ∀ work final, s.activity = .writing work final → work.Fits ∧
    s.poll.completed = false ∧
    (final = false → s.poll.foundAwake = true → work.cycle.isResting = false)
  wrote : ∀ work final ok, s.activity = .wrote work final ok → s.poll.completed = false ∧
    (final = false → s.poll.foundAwake = true → ok = true → holdsResting cfg.env s.file = false)

theorem inv_boot (hdistinct : Distinct cfg.env file) :
    Inv cfg (cfg.boot record enabled now last file) := by
  constructor
  case kept =>
    constructor
    · intro hcompleted
      cases hcompleted
    · intro spent hcycle spent' hrecorded
      have hdisk : recorded cfg.env file = some spent := boot_resting hdistinct hcycle
      exact (Option.some.inj (hrecorded.symm.trans hdisk)).le
  case distinct => exact hdistinct
  case pending =>
    intro spent hcycle spent' hpending
    cases hpending
  case writing =>
    intro work final hactivity
    cases hactivity
  case wrote =>
    intro work final ok hactivity
    cases hactivity

/-- Between its writes the sleep module only adds to a rest, or starts one. -/
theorem after_resting {ev : CycleEvent} (h : c.after ev = .resting spent) :
    (ev = .start ∧ spent = .zero) ∨ ∃ spent', c = .resting spent' ∧ spent' ≤ spent := by
  cases ev with
  | start =>
    left
    cases c <;> simp_all [StateCycle.after]
  | accrue awakeS =>
    right
    cases c <;> simp_all [StateCycle.after]
  | rest spent'' =>
    right
    cases c with
    | awake _ => simp [StateCycle.after] at h
    | resting spent' =>
      refine ⟨spent', rfl, ?_⟩
      have hmax : max spent' spent'' = spent := by simpa [StateCycle.after] using h
      exact hmax ▸ le_max_left spent' spent''
  | finish =>
    cases c <;> simp [StateCycle.after, StateCycle.fresh] at h

theorem inv_cycle {ev : CycleEvent} (h : Inv cfg s) (hfits : Fits cfg s (.cycle ev)) :
    Inv cfg { s with cycle := s.cycle.after ev } := by
  have hkeep : ∀ spent, s.cycle.after ev = .resting spent → ∀ spent',
      (recorded cfg.env s.file = some spent' → spent' ≤ spent) ∧
      (s.activity.pending = some spent' → spent' ≤ spent) := by
    intro spent hafter spent'
    rcases after_resting hafter with ⟨rfl, rfl⟩ | ⟨old, hold, hle⟩
    · refine ⟨fun hr => ?_, fun hp => ?_⟩
      · have hzero := hfits.1
        rw [hr] at hzero
        exact (of_decide_eq_true hzero).le
      · have hzero := hfits.2
        rw [hp] at hzero
        exact (of_decide_eq_true hzero).le
    · exact ⟨fun hr => (h.kept.spent old hold spent' hr).trans hle,
        fun hp => (h.pending old hold spent' hp).trans hle⟩
  exact {
    kept := ⟨h.kept.awake, fun spent hafter spent' => (hkeep spent hafter spent').1⟩
    distinct := h.distinct
    pending := fun spent hafter spent' => (hkeep spent hafter spent').2
    writing := h.writing
    wrote := h.wrote }

/-- Between two writes there is nothing more to keep. -/
theorem inv_of_quiet (hkept : Kept cfg s) (hdistinct : Distinct cfg.env s.file)
    (hquiet : s.activity = .waiting ∨ s.activity = .stopped) : Inv cfg s := by
  constructor
  case kept => exact hkept
  case distinct => exact hdistinct
  case pending =>
    intro spent _ spent' hpending
    rcases hquiet with h | h <;> simp [h, Activity.pending] at hpending
  case writing =>
    intro work final hactivity
    rcases hquiet with h | h <;> simp [h] at hactivity
  case wrote =>
    intro work final ok hactivity
    rcases hquiet with h | h <;> simp [h] at hactivity

/-- A write of the cycle that the entity is in may start. -/
theorem inv_of_writing (hspent : ∀ spent, s.cycle = .resting spent → ∀ spent',
      recorded cfg.env s.file = some spent' → spent' ≤ spent)
    (hdistinct : Distinct cfg.env s.file) (hcompleted : s.poll.completed = false)
    (hactivity : s.activity = .writing work final) (hfits : work.Fits)
    (hcycle : work.cycle = s.cycle)
    (hfound : final = false → s.poll.foundAwake = true → s.cycle.isResting = false) :
    Inv cfg s := by
  constructor
  case kept =>
    refine ⟨?_, hspent⟩
    intro hdone
    rw [hcompleted] at hdone
    cases hdone
  case distinct => exact hdistinct
  case pending =>
    intro spent hresting spent' hpending
    have heq : some spent = some spent' := by
      simpa [hactivity, Activity.pending, hcycle, hresting, StateCycle.rest] using hpending
    exact (Option.some.inj heq).ge
  case writing =>
    intro work' final' hactivity'
    obtain ⟨rfl, rfl⟩ : work = work' ∧ final = final' := by simpa [hactivity] using hactivity'
    exact ⟨hfits, hcompleted, by rwa [hcycle]⟩
  case wrote =>
    intro work' final' ok hactivity'
    simp [hactivity] at hactivity'

theorem startSave_some {t : State} (h : cfg.startSave s r final = some t) :
    ∃ identity : EntityIdentity isOther, t = { s with
      activity := .writing (.save (captureCheckpoint r.capture.env
        (r.capture.registry s.cycle).modules identity) s.cycle) final
      poll := { s.poll with foundAwake := s.poll.foundAwake && !s.cycle.isResting } } := by
  obtain ⟨identity, -, heq⟩ := Option.map_eq_some_iff.mp h
  exact ⟨identity, heq.symm⟩

theorem inv_startSave {t : State} (h : cfg.startSave s r final = some t)
    (hspent : ∀ spent, s.cycle = .resting spent → ∀ spent',
      recorded cfg.env s.file = some spent' → spent' ≤ spent)
    (hdistinct : Distinct cfg.env s.file) (hcompleted : s.poll.completed = false) :
    Inv cfg t := by
  obtain ⟨identity, rfl⟩ := startSave_some h
  refine inv_of_writing hspent hdistinct hcompleted rfl (capture_fits _ _ _) rfl ?_
  intro _ hfound
  simpa using (Bool.and_eq_true_iff.mp hfound).2

/-- The second part of a poll: either a save is due, or the poll completes as it is. -/
theorem inv_pollSave (hspent : ∀ spent, s.cycle = .resting spent → ∀ spent',
      recorded cfg.env s.file = some spent' → spent' ≤ spent)
    (hdistinct : Distinct cfg.env s.file) (hcompleted : s.poll.completed = false)
    (hawake : s.poll.foundAwake = true → s.poll.writesOk = true →
      (cfg.saveDue s r).isSome = true ∨ holdsResting cfg.env s.file = false) :
    Inv cfg (cfg.pollSave s r) := by
  unfold Config.pollSave
  cases hdue : cfg.saveDue s r with
  | some awake =>
    dsimp only
    cases hstart : cfg.startSave { s with last := some awake } r false with
    | some t => exact inv_startSave hstart hspent hdistinct hcompleted
    | none => exact inv_of_quiet ⟨fun _ _ hok => (by cases hok), hspent⟩ hdistinct (.inl rfl)
  | none =>
    have hdone : s.poll.foundAwake = true → s.poll.writesOk = true →
        holdsResting cfg.env s.file = false := by
      intro hfound hok
      rcases hawake hfound hok with hsome | hnot
      · simp [hdue] at hsome
      · exact hnot
    dsimp only
    split_ifs
    · exact inv_of_quiet ⟨fun _ => hdone, hspent⟩ hdistinct (.inl rfl)
    · exact inv_of_quiet ⟨fun _ => hdone, hspent⟩ hdistinct (.inl rfl)

theorem syncRest_some {readsRest : Bool} (h : cfg.syncRest s readsRest final = some c) :
    c = s.cycle := by
  unfold Config.syncRest at h
  dsimp only at h
  split_ifs at h
  exact (Option.some.inj h).symm

/-- An awake entity is written where the writer knows of a resting entry and is past its
back-off. -/
theorem syncRest_awake (hmarked : s.restMarked = true) (hretry : s.restRetryAt ≤ s.now)
    (hawake : s.cycle.isResting = false) : cfg.syncRest s true false = some s.cycle := by
  have hpast : ¬ s.now < s.restRetryAt := not_lt.mpr hretry
  simp [Config.syncRest, hmarked, hawake, hpast]

theorem syncRest_poll (p : Poll) : cfg.syncRest { s with poll := p } = cfg.syncRest s := rfl

theorem inv_poll (h : Inv cfg s) (hactivity : s.activity = .waiting)
    (hfits : Fits cfg s (.poll r)) : Inv cfg (cfg.poll s r) := by
  unfold Config.poll
  dsimp only
  cases hsync : cfg.syncRest { s with poll := ⟨r.readsRest && !s.cycle.isResting, true, false⟩ }
      r.readsRest false with
  | some c =>
    have hc : c = s.cycle := syncRest_some hsync
    refine inv_of_writing h.kept.spent h.distinct rfl rfl trivial hc ?_
    intro _ hfound
    simpa using (Bool.and_eq_true_iff.mp hfound).2
  | none =>
    refine inv_pollSave h.kept.spent h.distinct rfl ?_
    intro hfound _
    obtain ⟨hreads, hawake⟩ := Bool.and_eq_true_iff.mp hfound
    have hawake : s.cycle.isResting = false := by simpa using hawake
    by_cases hholds : holdsResting cfg.env s.file = true
    · left
      rcases hfits (by rw [hactivity]; rfl) hreads hawake hholds with ⟨hmarked, hretry⟩ | hdue
      · rw [hreads, syncRest_poll, syncRest_awake hmarked hretry hawake] at hsync
        cases hsync
      · exact hdue
    · right
      simpa using hholds

theorem inv_writeFinal (h : Inv cfg s) : Inv cfg (cfg.writeFinal s r) := by
  have hstopped : Inv cfg { s with poll := { s.poll with completed := false },
                                   activity := .stopped } :=
    inv_of_quiet ⟨fun hdone => (by cases hdone), h.kept.spent⟩ h.distinct (.inr rfl)
  unfold Config.writeFinal
  dsimp only
  split_ifs
  · cases hstart : cfg.startSave { s with poll := { s.poll with completed := false } } r true with
    | some t => exact inv_startSave hstart h.kept.spent h.distinct rfl
    | none => exact hstopped
  · cases hsync : cfg.syncRest { s with poll := { s.poll with completed := false } } r.readsRest
        true with
    | some c =>
      have hc : c = s.cycle := syncRest_some hsync
      refine inv_of_writing h.kept.spent h.distinct rfl rfl trivial hc ?_
      intro hfinal
      cases hfinal
    | none => exact hstopped

/-- A write says no more than was spent when it was begun. -/
theorem inv_threadWrites (h : Inv cfg s) (hactivity : s.activity = .writing work final) :
    Inv cfg { s with
      file := (cfg.threadWrites s record fault work).2
      activity := .wrote work final (cfg.threadWrites s record fault work).1 } := by
  obtain ⟨hwork, hcompleted, hfound⟩ := h.writing work final hactivity
  obtain ⟨hdistinct, heffect⟩ :=
    threadWrites_spec record fault hwork h.distinct
  constructor
  case kept =>
    constructor
    · intro hdone
      rw [hcompleted] at hdone
      cases hdone
    · intro spent hcycle spent' hrecorded
      rcases heffect with hentry | ⟨hfile, -⟩
      · have hpending : s.activity.pending = some spent' := by
          rw [hactivity]
          exact hentry.recorded_eq hrecorded
        exact h.pending spent hcycle spent' hpending
      · rw [hfile] at hrecorded
        exact h.kept.spent spent hcycle spent' hrecorded
  case distinct => exact hdistinct
  case pending =>
    intro spent _ spent' hpending
    cases hpending
  case writing =>
    intro work' final' hactivity'
    cases hactivity'
  case wrote =>
    intro work' final' ok hactivity'
    cases hactivity'
    refine ⟨hcompleted, ?_⟩
    intro hfinal hawake hok
    rcases heffect with hentry | ⟨-, hfailed⟩
    · exact hentry.not_resting (hfound hfinal hawake)
    · rw [hfailed] at hok
      cases hok

theorem inv_threadReturned (h : Inv cfg s) (hactivity : s.activity = .wrote work final ok) :
    Inv cfg (cfg.threadReturned s r work final ok) := by
  obtain ⟨hcompleted, hdisk⟩ := h.wrote work final ok hactivity
  have hundone : ∀ {P : Prop}, s.poll.completed = true → P := by
    intro P hdone
    rw [hcompleted] at hdone
    cases hdone
  have hdone : final = false → s.poll.foundAwake = true → (s.poll.writesOk && ok) = true →
      holdsResting cfg.env s.file = false := by
    intro hfinal hfound hok
    exact hdisk hfinal hfound (Bool.and_eq_true_iff.mp hok).2
  cases work with
  | sync c =>
    simp only [Config.threadReturned, Config.synced]
    cases final with
    | true =>
      cases ok
      · exact inv_of_quiet ⟨hundone, h.kept.spent⟩ h.distinct (.inr rfl)
      · exact inv_of_quiet ⟨hundone, h.kept.spent⟩ h.distinct (.inr rfl)
    | false =>
      cases ok
      · exact inv_pollSave h.kept.spent h.distinct hcompleted fun hf hw => .inr (hdone rfl hf hw)
      · exact inv_pollSave h.kept.spent h.distinct hcompleted fun hf hw => .inr (hdone rfl hf hw)
  | save snap c =>
    simp only [Config.threadReturned]
    cases final with
    | true =>
      cases ok
      · exact inv_of_quiet ⟨hundone, h.kept.spent⟩ h.distinct (.inr rfl)
      · exact inv_of_quiet ⟨hundone, h.kept.spent⟩ h.distinct (.inr rfl)
    | false =>
      cases ok
      · exact inv_of_quiet ⟨fun _ => hdone rfl, h.kept.spent⟩ h.distinct (.inl rfl)
      · exact inv_of_quiet ⟨fun _ => hdone rfl, h.kept.spent⟩ h.distinct (.inl rfl)

/-- Every step that fits keeps the invariant. -/
theorem inv_step (h : Inv cfg s) (hfits : Fits cfg s a) (hstep : Step cfg s a t) : Inv cfg t := by
  subst hstep
  cases a with
  | cycle ev => exact inv_cycle h hfits
  | clock now =>
    exact {
      kept := ⟨h.kept.awake, h.kept.spent⟩
      distinct := h.distinct
      pending := h.pending
      writing := h.writing
      wrote := h.wrote }
  | poll r =>
    simp only [step]
    split
    · rename_i hactivity
      exact inv_poll h hactivity hfits
    · exact h
  | threadWrites record fault =>
    simp only [step]
    split
    · rename_i work final hactivity
      exact inv_threadWrites h hactivity
    · exact h
  | threadReturns r =>
    simp only [step]
    split
    · rename_i work final ok hactivity
      exact inv_threadReturned h hactivity
    · exact h
  | writeFinal r =>
    simp only [step]
    split
    · exact inv_writeFinal h
    · exact h
  | restart record enabled now last => exact inv_boot h.distinct

/-- In every run whose steps fit, a poll that finds the entity awake and can write leaves no resting
entry, and a rest is never recorded as longer than it was. -/
theorem rest_is_not_resumed {cfg : Config isOther} {s : State}
    (h : Transition.Reachable (Initial cfg) (Transition.Guarded (Fits cfg) (Step cfg)) s) :
    Kept cfg s := by
  have hinv : Inv cfg s := by
    refine h.invariant ?_ ?_
    · rintro s ⟨file, record, enabled, now, last, hdistinct, rfl⟩
      exact inv_boot hdistinct
    · rintro s a t ⟨hfits, hstep⟩ hs
      exact inv_step hs hfits hstep
  exact hinv.kept

/-- A process of a freshly minted entity, with the sleep module only. -/
def sleepOnly : Config (fun _ => false) where
  env :=
    { show_ := fun _ => "", ofText := fun _ => none, dictOfOther := fun _ => .error .typeError
      newId := "c", now := .fin 3 }
  identity := some ⟨minted, minted_checked⟩
  intervalSeconds := 60
  interval_pos := by decide
  developmentalRestS := 1800

def sleepCapture : Capture where
  env := { id := "a", timestamp := .fin 1, reason := "periodic", awakeSeconds := .null }
  registry := fun c =>
    { modules := [⟨"sleep", .dict [("state_cycle", .obj c.exported)]⟩]
      distinct := List.nodup_singleton "sleep"
      current := by
        have hsleep : mapModuleKey "sleep" = "sleep" := by decide
        simpa using hsleep }
  reports := by
    intro c m hm _ d hd
    obtain rfl : m = ⟨"sleep", .dict [("state_cycle", .obj c.exported)]⟩ := by simpa using hm
    obtain rfl := Serialized.dict.inj hd
    rfl

/-- The readings of a poll at an awake time. -/
def readingAt (awake : ℚ) : Reading := ⟨true, some awake, true, sleepCapture⟩

def bootedEmpty : State := sleepOnly.boot .absent ["sleep"] 0 (some 0) .absent

/-- A poll with its write and the return of the thread. -/
def wholePoll (awake : ℚ) (fault : Option WriteStep) : List Action :=
  [.poll (readingAt awake), .threadWrites .absent fault, .threadReturns (readingAt awake)]

/-- A save, a rest with its first mark, and the end of the rest with the mark taken back. -/
def restAndEnd : List Action :=
  wholePoll 60 none ++ [.cycle .start] ++ wholePoll 60 none ++ [.cycle .finish] ++
    wholePoll 60 none

theorem initial_bootedEmpty : Initial sleepOnly bootedEmpty :=
  ⟨.absent, .absent, ["sleep"], 0, some 0, fun snap h => by simp [readCheckpoint] at h, rfl⟩

def FitsRun (cfg : Config isOther) : State → List Action → Prop
  | _, [] => True
  | s, a :: actions => Fits cfg s a ∧ FitsRun cfg (step cfg s a) actions

instance decidableFitsRun (cfg : Config isOther) :
    (s : State) → (actions : List Action) → Decidable (FitsRun cfg s actions)
  | _, [] => isTrue trivial
  | s, a :: actions =>
    have := decidableFitsRun cfg (step cfg s a) actions
    inferInstanceAs (Decidable (_ ∧ _))

theorem run_of_fitsRun {actions : List Action} (h : FitsRun cfg s actions) :
    Transition.Run (Transition.Guarded (Fits cfg) (Step cfg)) s actions
      (actions.foldl (step cfg) s) := by
  induction actions generalizing s with
  | nil => exact .refl s
  | cons a actions ih => exact .head ⟨h.1, rfl⟩ (ih h.2)

theorem ended_rest_is_not_resumed :
    (restAndEnd.foldl (step sleepOnly) bootedEmpty).poll = ⟨true, true, true⟩ ∧
      Kept sleepOnly (restAndEnd.foldl (step sleepOnly) bootedEmpty) :=
  ⟨by decide +kernel, rest_is_not_resumed
    ⟨bootedEmpty, restAndEnd, initial_bootedEmpty, run_of_fitsRun (by decide +kernel)⟩⟩

/-- The rest is marked, the process restarts, the mark of the new process fails, and the rest ends:
the writer knows of no entry, so the next poll takes none back. -/
def lostMark : List Action :=
  wholePoll 60 none ++ [.cycle .start] ++ wholePoll 60 none ++
    [.restart .absent ["sleep"] 0 (some 60)] ++ wholePoll 60 (some .write) ++ [.cycle .finish] ++
    [.poll (readingAt 60)]

def afterLostMark : State := lostMark.foldl (step sleepOnly) bootedEmpty

/-- A restart after that poll takes the ended rest up again. -/
theorem ended_rest_is_resumed :
    Transition.Reachable (Initial sleepOnly) (Step sleepOnly) afterLostMark ∧
      ¬ Kept sleepOnly afterLostMark ∧ afterLostMark.cycle.isResting = false ∧
      (step sleepOnly afterLostMark (.restart .absent ["sleep"] 0 (some 60))).cycle.isResting =
        true := by
  refine ⟨⟨bootedEmpty, lostMark, initial_bootedEmpty, Transition.Run.foldl _ _ fun _ _ _ => rfl⟩,
    ?_, ?_, ?_⟩
  · intro h
    have hpoll : afterLostMark.poll = ⟨true, true, true⟩ := by decide +kernel
    have hholds : holdsResting sleepOnly.env afterLostMark.file = true := by decide +kernel
    have hkept := h.awake (by rw [hpoll]) (by rw [hpoll]) (by rw [hpoll])
    rw [hholds] at hkept
    cases hkept
  · decide +kernel
  · decide +kernel

end Kaine.ResumeCheckpointer
