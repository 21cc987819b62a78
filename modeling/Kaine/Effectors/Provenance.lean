import Kaine.Effectors.AuditLog
import Kaine.Lib.HighWater

/-! The signatures of the intents to act, and the module that runs an effector for what they vouch
for (`kaine/security/intent_signing.py` and `kaine/modules/effectors/module.py`). What the boundary
lets through over any run: what was signed, once and in order. -/
namespace Kaine.Provenance
open Py Effectors

def act : String := "act"

/-- The fields that are signed, as `_canonical` gathers them. -/
def signedBody (effector : String) (params : Json) (runId : String) (seq : ℤ) : Dict :=
  [("kind", .str act), ("effector", .str effector), ("params", params), ("run_id", .str runId),
    ("seq", .int seq)]

/-- `compute_intent_signature` by a keyed digest, none where it raises. -/
def computeIntentSignature (env : AuditEnv) (mac : Text → String) (effector : String)
    (params : Json) (runId : String) (seq : ℤ) : Option String :=
  (env.canonical (signedBody effector params runId seq)).map mac

def isAscii (s : String) : Bool := s.toList.all fun c => c.toNat < 128

/-- `verify_intent_signature`. `hmac.compare_digest` raises at a text that is not ASCII. -/
def verifyIntentSignature (env : AuditEnv) (mac : Text → String) (effector : String) (params : Json)
    (runId : String) (seq : ℤ) (signature : String) : Option Bool :=
  if signature = "" then some false
  else
    match computeIntentSignature env mac effector params runId seq with
    | none => some false
    | some expected => if isAscii signature then some (expected = signature) else none

structure IntentSigner where
  runId : String
  seq : ℤ := 0
deriving DecidableEq

/-- An intent with the envelope that its signer gave it. -/
structure SignedIntent where
  effector : String
  params : Dict
  runId : String
  seq : ℤ
  sig : String
deriving DecidableEq

/-- `IntentSigner.sign`. The number is spent also where the signature raises. -/
def IntentSigner.sign (env : AuditEnv) (mac : Text → String) (signer : IntentSigner)
    (effector : String) (params : Dict) : Option SignedIntent × IntentSigner :=
  ((computeIntentSignature env mac effector (.obj params) signer.runId signer.seq).map fun sig =>
    ⟨effector, params, signer.runId, signer.seq, sig⟩, { signer with seq := signer.seq + 1 })

/-- The fields of a request with their defaults. -/
abbrev RequestType := List (String × Option Json)

def fileWriteRequest : RequestType := [("name", none), ("content", none)]

def notifyRequest : RequestType :=
  [("title", none), ("body", none), ("urgency", some (.str "normal"))]

def shellRequest : RequestType := [("command", none), ("args", some (.arr []))]

/-- `_REQUEST_TYPES`. -/
def defaultRequestTypes : List (String × RequestType) :=
  [("file_write", fileWriteRequest), ("notify", notifyRequest), ("shell", shellRequest)]

/-- A field of a request with the value that is given for it, or else its default. -/
def fill (given : Dict) (field : String × Option Json) : Option (String × Json) :=
  ((given.lookup field.1).or field.2).map fun v => (field.1, v)

/-- `request_type(**params)`, none where it raises: each field is given or has a default, and
nothing else is given. -/
def RequestType.construct (fields : RequestType) (params : Json) : Option Dict :=
  match params with
  | .obj given =>
    if given.all fun kv => fields.any fun field => field.1 = kv.1 then
      fields.mapM (fill given)
    else none
  | _ => none

structure ActionResult where
  success : Bool
  elapsedMs : PyFloat
  error : Option String

/-- What the module is built with. The secret is there as the keyed digest under it. -/
structure Config where
  env : AuditEnv
  mac : Option (Text → String)
  enforceProvenance : Bool := true
  enabledEffectors : List String := []
  registered : List String := ["file_write", "notify", "shell"]
  requestTypes : List (String × RequestType) := defaultRequestTypes
  baselineSalience : ℚ := 3 / 10
  alertSalience : ℚ := 7 / 10

/-- An event of the intent stream, with what the surroundings answer while it is handled: the time
that the log reads, whether it opens, how much of a line is written, whether the bus takes what is
published, and what the effector returns, none where it raises. -/
structure Delivery where
  payload : Dict
  timestamp : PyFloat
  opens : Bool
  written : Written
  publishes : Bool
  result : Option ActionResult

/-- The module and its loop. -/
structure Loop where
  alive : Bool
  highWater : List (String × ℤ) := []
  log : Option Text := none
  published : List (Dict × ℚ) := []

/-- `str(v or "")`. -/
def textOf (env : AuditEnv) (v : Json) : String := if v.truthy then env.str v else ""

/-- `v or {}`. -/
def orEmpty (v : Json) : Json := if v.truthy then v else .obj []

/-- A text that is not empty. -/
def nonemptyText : Json → Option String
  | .str s => if s = "" then none else some s
  | _ => none

/-- An integer that is no bool. -/
def wholeNumber : Json → Option ℤ
  | .int n => some n
  | _ => none

/-- What the boundary says of an intent. -/
inductive Verdict
  | accepted (highWater : List (String × ℤ))
  | rejected (reason : String)
  | raised
deriving DecidableEq

/-- What an intent presents, well formed. -/
structure Envelope where
  signature : String
  runId : String
  seq : ℤ
deriving DecidableEq

def invalidReason : String := "act intent signature is invalid"
def replayReason : String := "act intent already realized (replay)"

/-- The envelope, or what is missing of it. -/
def envelopeOf (payload : Dict) : Except String Envelope :=
  match nonemptyText (Dict.get payload "sig") with
  | none => .error "act intent missing provenance signature"
  | some signature =>
    match nonemptyText (Dict.get payload "run_id") with
    | none => .error "act intent missing run_id"
    | some runId =>
      match wholeNumber (Dict.get payload "seq") with
      | none => .error "act intent missing or malformed seq"
      | some seq => .ok ⟨signature, runId, seq⟩

/-- The number is not above the highest that was realized of its run. -/
def replayed (highWater : List (String × ℤ)) (runId : String) (seq : ℤ) : Bool :=
  (highWater.lookup runId).any fun prev => seq ≤ prev

/-- `_verify_provenance`. -/
def verifyProvenance (cfg : Config) (highWater : List (String × ℤ)) (payload : Dict) : Verdict :=
  if !cfg.enforceProvenance then .accepted highWater
  else
    match cfg.mac with
    | none => .rejected "provenance enforcement enabled but no signing secret configured"
    | some mac =>
      match envelopeOf payload with
      | .error reason => .rejected reason
      | .ok e =>
        match verifyIntentSignature cfg.env mac (textOf cfg.env (Dict.get payload "effector"))
            (orEmpty (Dict.get payload "params")) e.runId e.seq e.signature with
        | none => .raised
        | some false => .rejected invalidReason
        | some true =>
          if replayed highWater e.runId e.seq then .rejected replayReason
          else .accepted (Assoc.assign highWater e.runId e.seq)

/-- `_summarize_request`. -/
def summarizeRequest (request : Dict) : Dict := request.filter fun kv => kv.1 ∉ forbiddenKeys

/-- What became of an event. -/
inductive Outcome
  | ignored
  | raised
  | refused (effector reason : String)
  | dropped
  | blocked (effector : String) (request : Dict) (error : String)
  | unknown (effector : String) (request : Dict) (error : String)
  | ran (effector : String) (request : Dict) (result : Option ActionResult)

def blockedError (env : AuditEnv) (effector : String) : String :=
  "effector " ++ env.repr (.str effector) ++ " is not in the operator effector whitelist (blocked)"

def unknownError (env : AuditEnv) (effector : String) : String :=
  "unknown effector " ++ env.repr (.str effector)

/-- `act`: the whitelist comes before the effector is looked for. -/
def actOn (cfg : Config) (effector : String) (request : Dict)
    (result : Option ActionResult) : Outcome :=
  if effector ∉ cfg.enabledEffectors then .blocked effector request (blockedError cfg.env effector)
  else if effector ∉ cfg.registered then .unknown effector request (unknownError cfg.env effector)
  else .ran effector request result

/-- The request that an intent makes of its effector, none where its effector or its shape is
unknown. -/
def requestOf (cfg : Config) (effector : String) (params : Json) : Option Dict :=
  (cfg.requestTypes.lookup effector).bind fun fields => fields.construct params

/-- What `_handle_intent` does behind the boundary. -/
def realize (cfg : Config) (d : Delivery) : Outcome :=
  let effector := textOf cfg.env (Dict.get d.payload "effector")
  if effector = "" then .dropped
  else
    match requestOf cfg effector (orEmpty (Dict.get d.payload "params")) with
    | none => .dropped
    | some request => actOn cfg effector request d.result

/-- What an event comes to, with the high-water marks behind it. -/
def outcome (cfg : Config) (highWater : List (String × ℤ)) (d : Delivery) :
    Outcome × List (String × ℤ) :=
  if textOf cfg.env (Dict.get d.payload "kind") ≠ act then (.ignored, highWater)
  else
    match verifyProvenance cfg highWater d.payload with
    | .raised => (.raised, highWater)
    | .rejected reason =>
      (.refused (textOf cfg.env (Dict.get d.payload "effector")) reason, highWater)
    | .accepted highWater => (realize cfg d, highWater)

/-- The record of a result, and what is published of it. -/
structure Report where
  entry : AuditEntry
  payload : Dict
  salience : ℚ

/-- `_record`. -/
def record (cfg : Config) (d : Delivery) (effector : String) (request : Dict)
    (result : ActionResult) (blocked : Bool) : Report where
  entry :=
    ⟨d.timestamp, effector, summarizeRequest request, result.success, result.elapsedMs,
      result.error, blocked, false⟩
  payload :=
    [("effector", .str effector), ("success", .bool result.success),
     ("elapsed_ms", .float result.elapsedMs), ("error", (result.error.map Json.str).getD .null),
       ("blocked", .bool blocked),
     ("alert", .bool !result.success)]
  salience := if result.success then cfg.baselineSalience else cfg.alertSalience

/-- `_record_provenance_rejected`. -/
def recordProvenanceRejected (cfg : Config) (d : Delivery) (effector reason : String) : Report where
  entry := ⟨d.timestamp, effector, [], false, .fin 0, some reason, false, true⟩
  payload :=
    [("effector", .str effector), ("success", .bool false), ("elapsed_ms", .float (.fin 0)),
     ("error", .str reason), ("blocked", .bool false), ("provenance_rejected", .bool true),
       ("alert", .bool true)]
  salience := cfg.alertSalience

/-- What is recorded of an outcome, none of an intent that is dropped or whose effector raises. -/
def Outcome.report (cfg : Config) (d : Delivery) : Outcome → Option Report
  | .refused effector reason => some (recordProvenanceRejected cfg d effector reason)
  | .blocked effector request error =>
    some (record cfg d effector request ⟨false, .fin 0, some error⟩ true)
  | .unknown effector request error =>
    some (record cfg d effector request ⟨false, .fin 0, some error⟩ false)
  | .ran effector request (some result) => some (record cfg d effector request result false)
  | _ => none

/-- The loop ends at what is let out of `_handle_intent`: what the boundary raises, and what the bus
raises at a refusal. -/
def Outcome.ends (publishes : Bool) : Outcome → Bool
  | .raised => true
  | .refused _ _ => !publishes
  | _ => false

/-- `_handle_intent` in its loop. -/
def handleIntent (cfg : Config) (loop : Loop) (d : Delivery) : Loop × Outcome :=
  let out := outcome cfg loop.highWater d
  let report := out.1.report cfg d
  ({ alive := !out.1.ends d.publishes
     highWater := out.2
     log := (report.elim loop.log) fun report =>
       append cfg.env loop.log ⟨report.entry, d.opens, d.written⟩
     published := loop.published ++ ((report.filter fun _ => d.publishes).map fun report =>
       (report.payload, report.salience)).toList }, out.1)

/-- What happens around the boundary: the executive signs an intent, the loop reads an event of its
stream, whoever wrote it, and the module is restarted in place. -/
inductive Move
  | sign (effector : String) (params : Dict)
  | deliver (d : Delivery)
  | restart

/-- The signer and the module, with what was signed and what became of each event that the loop
read. -/
structure System where
  signer : IntentSigner
  loop : Loop
  signed : List SignedIntent := []
  handled : List (Delivery × Outcome) := []

/-- One move. A loop that has ended reads nothing. -/
def step (cfg : Config) (mac : Text → String) (s : System) : Move → System
  | .sign effector params =>
    let minted := s.signer.sign cfg.env mac effector params
    { s with signer := minted.2, signed := s.signed ++ minted.1.toList }
  | .deliver d =>
    if s.loop.alive then
      let out := handleIntent cfg s.loop d
      { s with loop := out.1, handled := s.handled ++ [(d, out.2)] }
    else s
  | .restart => { s with loop := { s.loop with alive := true } }

def run (cfg : Config) (mac : Text → String) (s : System) (moves : List Move) : System :=
    moves.foldl (step cfg mac) s

/-- A boot on the log that earlier ones left: nothing is signed, and nothing realized. -/
def boot (runId : String) (log : Option Text) : System :=
  ⟨⟨runId, 0⟩, { alive := true, log }, [], []⟩

variable {cfg : Config} {mac : Text → String} {highWater after : List (String × ℤ)} {payload : Dict}
  {d : Delivery}
  {e : Envelope} {s : System} {loop : Loop} {moves : List Move} {runId : String}

/-- What an intent presents under a signature that is its own. -/
def verified (cfg : Config) (payload : Dict) : Option Envelope :=
  cfg.mac.bind fun mac => (envelopeOf payload).toOption.filter fun e =>
    verifyIntentSignature cfg.env mac (textOf cfg.env (Dict.get payload "effector"))
      (orEmpty (Dict.get payload "params")) e.runId e.seq e.signature = some true

/-- The fields whose signature an intent presents. -/
def presentedBody (env : AuditEnv) (payload : Dict) (e : Envelope) : Dict :=
  signedBody (textOf env (Dict.get payload "effector")) (orEmpty (Dict.get payload "params"))
    e.runId e.seq

def SignedIntent.body (i : SignedIntent) : Dict :=
  signedBody i.effector (.obj i.params) i.runId i.seq

/-- The intent passed the boundary. -/
def Outcome.isAccepted : Outcome → Bool
  | .ignored | .raised | .refused _ _ => false
  | _ => true

def isAct (cfg : Config) (d : Delivery) : Bool := textOf cfg.env (Dict.get d.payload "kind") = act

theorem run_concat (s : System) (moves : List Move) (move : Move) :
    run cfg mac s (moves ++ [move]) = step cfg mac (run cfg mac s moves) move := by
  rw [run, List.foldl_append]
  rfl

section Boundary

theorem verified_eq_some :
    verified cfg payload = some e ↔ ∃ mac, cfg.mac = some mac ∧ envelopeOf payload = .ok e ∧
    verifyIntentSignature cfg.env mac (textOf cfg.env (Dict.get payload "effector"))
      (orEmpty (Dict.get payload "params")) e.runId e.seq e.signature = some true := by
  unfold verified
  rw [Option.bind_eq_some_iff]
  refine exists_congr fun mac => and_congr_right fun _ => ?_
  cases envelopeOf payload with
  | error reason => simp [Except.toOption]
  | ok other => simp [Except.toOption, Option.filter_eq_some_iff]

/-- An intent that presents a signature of its own is refused as a replay or accepted. -/
theorem verifyProvenance_verified (hon : cfg.enforceProvenance = true)
    (h : verified cfg payload = some e) :
    verifyProvenance cfg highWater payload = if replayed highWater e.runId e.seq
      then .rejected replayReason else .accepted (Assoc.assign highWater e.runId e.seq) := by
  obtain ⟨mac, hmac, henvelope, hverify⟩ := verified_eq_some.mp h
  rw [verifyProvenance, hon, hmac, Bool.not_true, if_neg Bool.false_ne_true]
  dsimp only
  rw [henvelope]
  dsimp only
  rw [hverify]

theorem verified_of_accepted (hon : cfg.enforceProvenance = true)
    (h : verifyProvenance cfg highWater payload = .accepted after) :
    ∃ e, verified cfg payload = some e := by
  rw [verifyProvenance, hon, Bool.not_true, if_neg Bool.false_ne_true] at h
  cases hmac : cfg.mac with
  | none =>
    rw [hmac] at h
    cases h
  | some mac =>
    rw [hmac] at h
    cases henvelope : envelopeOf payload with
    | error reason =>
      rw [henvelope] at h
      cases h
    | ok e =>
      rw [henvelope] at h
      dsimp only at h
      refine ⟨e, verified_eq_some.mpr ⟨mac, hmac, henvelope, ?_⟩⟩
      generalize verifyIntentSignature cfg.env mac (textOf cfg.env (Dict.get payload "effector"))
        (orEmpty (Dict.get payload "params")) e.runId e.seq e.signature = answer at h ⊢
      rcases answer with _ | _ | _
      · cases h
      · cases h
      · rfl

theorem verify_cases (hon : cfg.enforceProvenance = true)
    (h : verifyProvenance cfg highWater payload = .accepted after) :
    ∃ e, verified cfg payload = some e ∧ replayed highWater e.runId e.seq = false ∧
      after = Assoc.assign highWater e.runId e.seq := by
  obtain ⟨e, he⟩ := verified_of_accepted hon h
  rw [verifyProvenance_verified hon he] at h
  cases hreplayed : replayed highWater e.runId e.seq with
  | true =>
    rw [hreplayed, if_pos rfl] at h
    cases h
  | false =>
    rw [hreplayed, if_neg Bool.false_ne_true] at h
    cases h
    exact ⟨e, he, hreplayed, rfl⟩

theorem realize_accepted (cfg : Config) (d : Delivery) : (realize cfg d).isAccepted = true := by
  unfold realize
  dsimp only
  split
  · rfl
  split
  · rfl
  · unfold actOn
    split_ifs <;> rfl

theorem verifyProvenance_invalid (hon : cfg.enforceProvenance = true) {mac : Text → String}
    (hmac : cfg.mac = some mac) (henvelope : envelopeOf payload = .ok e)
    (h : verifyIntentSignature cfg.env mac (textOf cfg.env (Dict.get payload "effector"))
      (orEmpty (Dict.get payload "params")) e.runId e.seq e.signature = some false) :
    verifyProvenance cfg highWater payload = .rejected invalidReason := by
  rw [verifyProvenance, hon, hmac, Bool.not_true, if_neg Bool.false_ne_true]
  dsimp only
  rw [henvelope]
  dsimp only
  rw [h]

theorem outcome_rejected {reason : String} (hact : isAct cfg d = true)
    (h : verifyProvenance cfg highWater d.payload = .rejected reason) :
    outcome cfg highWater d =
      (.refused (textOf cfg.env (Dict.get d.payload "effector")) reason, highWater) := by
  rw [outcome, if_neg (not_not.mpr (of_decide_eq_true hact)), h]

theorem outcome_passed (hact : isAct cfg d = true)
    (h : verifyProvenance cfg highWater d.payload = .accepted after) :
    outcome cfg highWater d = (realize cfg d, after) := by
  rw [outcome, if_neg (not_not.mpr (of_decide_eq_true hact)), h]

/-- What passes the boundary presents a signature of its own, and a number above the mark of its
run. -/
theorem outcome_accepted (hon : cfg.enforceProvenance = true)
    (h : (outcome cfg highWater d).1.isAccepted = true) :
    isAct cfg d = true ∧ (outcome cfg highWater d).1 = realize cfg d ∧
      ∃ e, verified cfg d.payload = some e ∧ replayed highWater e.runId e.seq = false ∧
        (outcome cfg highWater d).2 = Assoc.assign highWater e.runId e.seq := by
  rw [outcome] at h ⊢
  by_cases hkind : textOf cfg.env (Dict.get d.payload "kind") = act
  swap
  · rw [if_pos hkind] at h
    cases h
  rw [if_neg (not_not.mpr hkind)] at h ⊢
  refine ⟨decide_eq_true hkind, ?_⟩
  cases hverdict : verifyProvenance cfg highWater d.payload with
  | accepted after => exact ⟨rfl, verify_cases hon hverdict⟩
  | rejected reason =>
    rw [hverdict] at h
    cases h
  | raised =>
    rw [hverdict] at h
    cases h

theorem outcome_kept (h : (outcome cfg highWater d).1.isAccepted = false) :
    (outcome cfg highWater d).2 = highWater := by
  rw [outcome] at h ⊢
  split_ifs at h ⊢ with hkind
  · rfl
  cases hverdict : verifyProvenance cfg highWater d.payload with
  | accepted after =>
    rw [hverdict] at h
    exact absurd ((realize_accepted cfg d).symm.trans h) (by decide)
  | rejected reason => rfl
  | raised => rfl

/-- An intent with a signature of its own passes unless its number was reached. -/
theorem outcome_verified (hon : cfg.enforceProvenance = true) (hact : isAct cfg d = true)
    (he : verified cfg d.payload = some e) :
    (outcome cfg highWater d).1.isAccepted = !replayed highWater e.runId e.seq := by
  rw [outcome, if_neg (not_not.mpr (of_decide_eq_true hact)), verifyProvenance_verified hon he]
  cases replayed highWater e.runId e.seq with
  | true => rfl
  | false => exact realize_accepted cfg d

end Boundary

section Sample

def greeting : Dict := [("title", .str "kaine"), ("body", .str "awake")]

def greetingText : Text :=
  ["\x7b\"effector\":\"notify\",\"kind\":\"act\",\"params\":",
   "\x7b\"body\":\"awake\",\"title\":\"kaine\"\x7d,\"run_id\":\"run-1\",\"seq\":0\x7d"].flatMap
     Text.ofString

def greetingSig : String := "87b5114fe19ba5faab7e5817fdaae0481afc8e15a097706bb351a8529d941db0"

def listing : Dict := [("command", .str "ls")]

def listingText : Text :=
  ["\x7b\"effector\":\"shell\",\"kind\":\"act\",\"params\":",
   "\x7b\"command\":\"ls\"\x7d,\"run_id\":\"run-1\",\"seq\":7\x7d"].flatMap Text.ofString

def listingSig : String := "6a02fa8b3752c24713e85a156b26910ed0306e42fa5a42456b541c261bb6dada"

/-- HMAC-SHA256 under the bytes from 0 to 31. -/
def sampleMac (t : Text) : String :=
  if t = greetingText then greetingSig else if t = listingText then listingSig else genesisHash

def signingCores : List (Dict × Text) :=
  [(firstEntry.core, firstBody), (secondEntry.core, secondBody),
   (signedBody "notify" (.obj greeting) "run-1" 0, greetingText),
   (signedBody "shell" (.obj listing) "run-1" 7, listingText)]

theorem signing_keys : (signingCores.map fun row => row.1.sorted).Nodup := by decide +kernel

theorem signing_texts : (signingCores.map Prod.snd).Nodup := by decide +kernel

def signingEnv : AuditEnv :=
  AuditEnv.ofTexts signingCores
    [(withHashes firstEntry.core genesisHash firstHash, firstLine),
      (withHashes secondEntry.core firstHash secondHash, secondLine)]
    [(Text.ofString genesisHash ++ firstBody, firstHash),
      (Text.ofString firstHash ++ secondBody, secondHash)]
    (fun _ => "None") signing_texts sample_texts sample_digests

def signingConfig : Config where
  env := signingEnv
  mac := some sampleMac
  enabledEffectors := ["notify"]

/-- An act event with these fields. -/
def actPayload (effector : String) (params : Dict) (seq : ℤ) (sig : String) : Dict :=
  [("kind", .str act), ("effector", .str effector), ("params", .obj params),
   ("run_id", .str "run-1"), ("seq", .int seq), ("sig", .str sig)]

/-- A signature that was seen on the stream, on an intent of one's own. -/
def borrowed : Delivery := ⟨actPayload "shell" listing 7 greetingSig, .fin 1700000000, true, .whole,
      true, none⟩

/-- The intent that was signed, whose effector raises, and the same again. -/
def greeted : Delivery :=
    ⟨actPayload "notify" greeting 0 greetingSig, .fin 1700000001, true, .whole, true, none⟩

def greetedAgain : Delivery := { greeted with timestamp := .fin (3400000003 / 2) }

def sampleMoves : List Move :=
  [.sign "notify" greeting, .deliver borrowed, .deliver greeted, .deliver greetedAgain]

theorem greeting_canonical :
    signingEnv.canonical (signedBody "notify" (.obj greeting) "run-1" 0) = some greetingText :=
  find_listed signing_keys (.tail _ (.tail _ (.head _)))

theorem listing_canonical :
    signingEnv.canonical (signedBody "shell" (.obj listing) "run-1" 7) = some listingText :=
  find_listed signing_keys (.tail _ (.tail _ (.tail _ (.head _))))

theorem mac_greeting : sampleMac greetingText = greetingSig := if_pos rfl

theorem mac_listing : sampleMac listingText = listingSig := by
  have hne : listingText ≠ greetingText := by decide +kernel
  rw [sampleMac, if_neg hne, if_pos rfl]

theorem sign_greeting : (⟨"run-1", 0⟩ : IntentSigner).sign signingEnv sampleMac "notify" greeting =
    (some ⟨"notify", greeting, "run-1", 0, greetingSig⟩, ⟨"run-1", 1⟩) := by
  rw [IntentSigner.sign, computeIntentSignature, greeting_canonical, Option.map_some,
    Option.map_some, mac_greeting]
  rfl

theorem borrowed_verify :
    verifyIntentSignature signingEnv sampleMac "shell" (.obj listing) "run-1" 7 greetingSig =
      some false := by
  rw [verifyIntentSignature, computeIntentSignature, listing_canonical, Option.map_some,
    mac_listing]
  decide +kernel

theorem greeting_verify :
    verifyIntentSignature signingEnv sampleMac "notify" (.obj greeting) "run-1" 0 greetingSig =
      some true := by
  rw [verifyIntentSignature, computeIntentSignature, greeting_canonical, Option.map_some,
    mac_greeting]
  decide +kernel

theorem borrowed_refused (highWater : List (String × ℤ)) :
    outcome signingConfig highWater borrowed = (.refused "shell" invalidReason, highWater) :=
  outcome_rejected rfl (verifyProvenance_invalid (e := ⟨greetingSig, "run-1", 7⟩) rfl rfl rfl
    borrowed_verify)

theorem borrowed_verified : verified signingConfig borrowed.payload = none := by
  refine Option.eq_none_iff_forall_not_mem.mpr fun e he => ?_
  obtain ⟨mac, hmac, henvelope, hverify⟩ := verified_eq_some.mp he
  cases hmac
  cases henvelope
  exact absurd (hverify.symm.trans borrowed_verify) (by decide)

theorem greeted_verified : verified signingConfig greeted.payload = some ⟨greetingSig,
      "run-1", 0⟩ :=
  verified_eq_some.mpr ⟨sampleMac, rfl, rfl, greeting_verify⟩

theorem greeted_ran :
    outcome signingConfig [] greeted =
      (.ran "notify" (greeting ++ [("urgency", .str "normal")]) none, [("run-1", 0)]) :=
  outcome_passed rfl (verifyProvenance_verified rfl greeted_verified)

theorem greetedAgain_refused :
    outcome signingConfig [("run-1", 0)] greetedAgain = (.refused "notify" replayReason,
      [("run-1", 0)]) :=
  outcome_rejected rfl (verifyProvenance_verified rfl greeted_verified)

/-- What a run came to, but for its records. -/
structure Came (s : System) (highWater : List (String × ℤ)) (signed : List SignedIntent)
    (handled : List (Delivery × Outcome)) : Prop where
  alive : s.loop.alive = true
  highWater : s.loop.highWater = highWater
  signed : s.signed = signed
  handled : s.handled = handled

theorem came_deliver (mac : Text → String) {signed : List SignedIntent}
    {handled : List (Delivery × Outcome)} {out : Outcome}
    (h : Came s highWater signed handled) (hout : outcome cfg highWater d = (out, after))
    (hends : out.ends d.publishes = false) :
    Came (step cfg mac s (.deliver d)) after signed (handled ++ [(d, out)]) := by
  have hstep : step cfg mac s (.deliver d) = { s with
      loop := (handleIntent cfg s.loop d).1
      handled := s.handled ++ [(d, (handleIntent cfg s.loop d).2)] } := if_pos h.alive
  have hcame : outcome cfg s.loop.highWater d = (out, after) := h.highWater ▸ hout
  rw [hstep]
  refine ⟨?_, ?_, h.signed, ?_⟩
  · rw [handleIntent, hcame, hends]
    rfl
  · exact congrArg Prod.snd hcame
  · exact congrArg₂ (fun handled out => handled ++ [(d, out)]) h.handled (congrArg Prod.fst hcame)

def signedGreeting : SignedIntent := ⟨"notify", greeting, "run-1", 0, greetingSig⟩

def greetedOutcome : Outcome := .ran "notify" (greeting ++ [("urgency", .str "normal")]) none

theorem came_signed : Came
    (run signingConfig sampleMac (boot "run-1" none) (sampleMoves.take 1)) []
      [signedGreeting] [] := by
  have hrun : run signingConfig sampleMac (boot "run-1" none) (sampleMoves.take 1) =
      { boot "run-1" none with signer := ⟨"run-1", 1⟩, signed := [signedGreeting] } := by
    have hsign :
        (boot "run-1" none).signer.sign signingConfig.env sampleMac "notify" greeting = _ :=
      sign_greeting
    rw [sampleMoves, List.take_succ_cons, List.take_zero, run, List.foldl_cons, List.foldl_nil,
      step, hsign]
    rfl
  rw [hrun]
  exact ⟨rfl, rfl, rfl, rfl⟩

theorem came_borrowed :
    Came (run signingConfig sampleMac (boot "run-1" none) (sampleMoves.take 2)) [] [signedGreeting]
    [(borrowed, .refused "shell" invalidReason)] :=
  came_deliver sampleMac came_signed (borrowed_refused []) rfl

theorem came_greeted :
    Came (run signingConfig sampleMac (boot "run-1" none) (sampleMoves.take 3)) [("run-1", 0)]
    [signedGreeting] [(borrowed, .refused "shell" invalidReason), (greeted, greetedOutcome)] :=
  came_deliver sampleMac came_borrowed greeted_ran rfl

theorem came_again : Came
    (run signingConfig sampleMac (boot "run-1" none) sampleMoves) [("run-1", 0)] [signedGreeting]
    [(borrowed, .refused "shell" invalidReason), (greeted, greetedOutcome),
      (greetedAgain, .refused "notify" replayReason)] :=
  came_deliver sampleMac came_greeted greetedAgain_refused rfl

end Sample

section Marks

/-- The number that an event presents of a run, under a signature of its own. -/
def presentedBy (cfg : Config) (runId : String) (d : Delivery) : Option ℤ :=
  if isAct cfg d then ((verified cfg d.payload).filter fun e => e.runId = runId).map Envelope.seq
    else none

/-- The numbers that were presented of a run, in the order of their arrival. -/
def presented (cfg : Config) (runId : String) (handled : List (Delivery × Outcome)) : List ℤ :=
  handled.filterMap fun x => presentedBy cfg runId x.1

/-- Those of them that passed. -/
def accepted (cfg : Config) (runId : String) (handled : List (Delivery × Outcome)) : List ℤ :=
  presented cfg runId (handled.filter fun x => x.2.isAccepted)

/-- The numbers that passed are those above all before them, and the last of them is the mark. -/
def Marked (cfg : Config) (s : System) : Prop :=
  ∀ runId, accepted cfg runId s.handled = HighWater.records (presented cfg runId s.handled) ∧
    s.loop.highWater.lookup runId = (accepted cfg runId s.handled).getLast?

theorem replayed_eq_false {seq : ℤ} : replayed highWater runId seq = false ↔
    ∀ m ∈ highWater.lookup runId, m < seq := by
  rw [replayed]
  cases highWater.lookup runId <;> simp

theorem presentedBy_verified (hact : isAct cfg d = true) (he : verified cfg d.payload = some e) :
    presentedBy cfg e.runId d = some e.seq := by
  rw [presentedBy, if_pos hact, he, Option.filter_some, if_pos (decide_eq_true rfl),
    Option.map_some]

theorem presentedBy_other (he : verified cfg d.payload = some e) (hne : runId ≠ e.runId) :
    presentedBy cfg runId d = none := by
  have hother : decide (e.runId = runId) ≠ true := by simpa using hne.symm
  rw [presentedBy, he, Option.filter_some, if_neg hother]
  split <;> rfl

theorem presented_concat (handled : List (Delivery × Outcome)) (out : Outcome) :
    presented cfg runId (handled ++ [(d, out)]) =
      presented cfg runId handled ++ (presentedBy cfg runId d).toList := by
  rw [presented, List.filterMap_append, ← presented]
  cases h : presentedBy cfg runId d <;> simp [h]

theorem accepted_concat (handled : List (Delivery × Outcome)) (out : Outcome) :
    accepted cfg runId (handled ++ [(d, out)]) = accepted cfg runId handled ++
      if out.isAccepted then (presentedBy cfg runId d).toList else [] := by
  rw [accepted, List.filter_append]
  cases hout : out.isAccepted with
  | true =>
    have hkeep : [(d, out)].filter (fun x => x.2.isAccepted) = [(d, out)] := by simp [hout]
    rw [hkeep, presented_concat, ← accepted, if_pos rfl]
  | false =>
    have hkeep : [(d, out)].filter (fun x => x.2.isAccepted) = [] := by simp [hout]
    rw [hkeep, List.append_nil, ← accepted, if_neg Bool.false_ne_true, List.append_nil]

/-- A number passes where it exceeds those presented before it. -/
theorem Marked.replayed_iff (h : Marked cfg s) (runId : String) (seq : ℤ) :
    replayed s.loop.highWater runId seq = false ↔
      ∀ y ∈ presented cfg runId s.handled, y < seq := by
  obtain ⟨hrecords, hmark⟩ := h runId
  rw [replayed_eq_false, hmark, hrecords,
    ← HighWater.forall_lt_iff_last (HighWater.records_increasing _),
    HighWater.forall_records_lt_iff]

theorem marked_deliver (hon : cfg.enforceProvenance = true) (h : Marked cfg s) (d : Delivery) :
    Marked cfg { s with
      loop := (handleIntent cfg s.loop d).1
      handled := s.handled ++ [(d, (handleIntent cfg s.loop d).2)] } := by
  intro runId
  obtain ⟨hrecords, hmark⟩ := h runId
  change accepted cfg runId (s.handled ++ [(d, (outcome cfg s.loop.highWater d).1)]) =
      HighWater.records (presented cfg runId
        (s.handled ++ [(d, (outcome cfg s.loop.highWater d).1)])) ∧
    (outcome cfg s.loop.highWater d).2.lookup runId =
      (accepted cfg runId (s.handled ++ [(d, (outcome cfg s.loop.highWater d).1)])).getLast?
  rw [presented_concat, accepted_concat]
  cases hout : (outcome cfg s.loop.highWater d).1.isAccepted with
  | true =>
    obtain ⟨hact, -, e, he, hfresh, hafter⟩ := outcome_accepted hon hout
    rw [if_pos rfl, hafter]
    by_cases hrun : runId = e.runId
    · subst hrun
      rw [presentedBy_verified hact he, Option.toList_some, HighWater.records_concat_all,
        if_pos ((h.replayed_iff _ _).mp hfresh), hrecords, List.getLast?_concat,
        Assoc.lookup_assign_self]
      exact ⟨rfl, rfl⟩
    · rw [presentedBy_other he hrun, Option.toList_none, List.append_nil, List.append_nil,
        Assoc.lookup_assign_of_ne hrun]
      exact ⟨hrecords, hmark⟩
  | false =>
    rw [if_neg Bool.false_ne_true, List.append_nil, outcome_kept hout]
    refine ⟨?_, hmark⟩
    cases hby : presentedBy cfg runId d with
    | none => rw [Option.toList_none, List.append_nil, hrecords]
    | some seq =>
      rw [presentedBy] at hby
      split_ifs at hby with hact
      obtain ⟨e, hfilter, rfl⟩ := Option.map_eq_some_iff.mp hby
      obtain ⟨he, hrun⟩ := Option.filter_eq_some_iff.mp hfilter
      obtain rfl := of_decide_eq_true hrun
      have hold : ¬ ∀ y ∈ presented cfg e.runId s.handled, y < e.seq := by
        rw [← h.replayed_iff, ← Bool.not_eq_true']
        exact fun hfresh => Bool.false_ne_true
          (hout.symm.trans ((outcome_verified hon hact he).trans hfresh))
      rw [Option.toList_some, HighWater.records_concat_all, if_neg hold, hrecords]

theorem marked_step (hon : cfg.enforceProvenance = true) (h : Marked cfg s) (move : Move) :
    Marked cfg (step cfg mac s move) := by
  cases move with
  | sign effector params => exact h
  | deliver d =>
    rw [step]
    split
    · exact marked_deliver hon h d
    · exact h
  | restart => exact h

theorem marked_run (mac : Text → String) (hon : cfg.enforceProvenance = true) (h : Marked cfg s)
    (moves : List Move) :
    Marked cfg (run cfg mac s moves) := by
  induction moves generalizing s with
  | nil => exact h
  | cons move moves ih => exact ih (marked_step hon h move)

theorem marked_boot (runId : String) (log : Option Text) : Marked cfg (boot runId log) :=
  fun _ => ⟨rfl, rfl⟩

/-- Over every run the numbers that pass are those above all presented before them, whatever the
order in which signed intents arrive and whatever else arrives between them; where they arrive in
order, each passes. -/
theorem accepted_eq_records (hon : cfg.enforceProvenance = true) (runId : String)
    (log : Option Text) (moves : List Move) (of : String) :
    accepted cfg of (run cfg mac (boot runId log) moves).handled =
        HighWater.records (presented cfg of (run cfg mac (boot runId log) moves).handled) ∧
      ((presented cfg of (run cfg mac (boot runId log) moves).handled).Pairwise (· ≤ ·) →
        ∀ seq ∈ presented cfg of (run cfg mac (boot runId log) moves).handled,
          seq ∈ accepted cfg of (run cfg mac (boot runId log) moves).handled) := by
  obtain ⟨hrecords, -⟩ := marked_run mac hon (marked_boot runId log) moves of
  refine ⟨hrecords, fun hordered seq hseq => ?_⟩
  rw [hrecords]
  exact HighWater.mem_records_of_ordered hordered hseq

/-- A borrowed signature, the intent that was signed, and the same again. -/
theorem accepted_sample :
    accepted signingConfig "run-1" (run signingConfig sampleMac (boot "run-1" none)
        sampleMoves).handled = HighWater.records
          (presented signingConfig "run-1" (run signingConfig sampleMac (boot "run-1" none)
            sampleMoves).handled) ∧
      ((presented signingConfig "run-1"
          (run signingConfig sampleMac (boot "run-1" none) sampleMoves).handled).Pairwise (· ≤ ·) →
        ∀ seq ∈ presented signingConfig "run-1"
            (run signingConfig sampleMac (boot "run-1" none) sampleMoves).handled,
          seq ∈ accepted signingConfig "run-1"
            (run signingConfig sampleMac (boot "run-1" none) sampleMoves).handled) :=
  accepted_eq_records rfl "run-1" none sampleMoves "run-1"

end Marks

section Requests

variable {given given' : Dict} {params params' : Json}

/-- The entry with its value sorted. -/
def sortEntry (kv : String × Json) : String × Json := (kv.1, kv.2.sorted)

theorem fill_congr (h : Dict.sorted given = Dict.sorted given') (field : String × Option Json) :
    (fill given field).map sortEntry = (fill given' field).map sortEntry := by
  have hvalue : (given.lookup field.1).map Json.sorted =
    (given'.lookup field.1).map Json.sorted := by
    rw [← Dict.lookup_sorted, ← Dict.lookup_sorted, h]
  unfold fill
  cases hgiven : given.lookup field.1 with
  | none =>
    rw [hgiven, Option.map_none, eq_comm, Option.map_eq_none_iff] at hvalue
    rw [hvalue]
  | some v =>
    rw [hgiven, Option.map_some, eq_comm, Option.map_eq_some_iff] at hvalue
    obtain ⟨v', hv', hsame⟩ := hvalue
    rw [hv']
    simp [sortEntry, hsame]

/-- Requests whose entries agree when sorted agree when sorted. -/
theorem mapM_congr {f f' : String × Option Json → Option (String × Json)} (fields : RequestType)
    (h : ∀ field, (f field).map sortEntry = (f' field).map sortEntry) :
    (fields.mapM f).map Dict.sorted = (fields.mapM f').map Dict.sorted := by
  induction fields with
  | nil => rfl
  | cons field fields ih =>
    rw [List.mapM_cons, List.mapM_cons]
    have hfield := h field
    cases hf : f field with
    | none =>
      rw [hf, Option.map_none, eq_comm, Option.map_eq_none_iff] at hfield
      rw [hfield]
      rfl
    | some kv =>
      rw [hf, Option.map_some, eq_comm, Option.map_eq_some_iff] at hfield
      obtain ⟨kv', hf', hentry⟩ := hfield
      rw [hf']
      cases hrest : fields.mapM f with
      | none =>
        rw [hrest, Option.map_none, eq_comm, Option.map_eq_none_iff] at ih
        rw [ih]
        rfl
      | some rest =>
        rw [hrest, Option.map_some, eq_comm, Option.map_eq_some_iff] at ih
        obtain ⟨rest', hrest', hsame⟩ := ih
        rw [hrest']
        obtain ⟨k, v⟩ := kv
        obtain ⟨k', v'⟩ := kv'
        obtain ⟨rfl, hvalue⟩ := Prod.mk.inj hentry
        unfold Dict.sorted at hsame
        simp [Dict.sorted, Json.sortedEntries, hsame, show v'.sorted = v.sorted from hvalue]

theorem allKeys_congr (h : Dict.sorted given = Dict.sorted given') (p : String → Bool) :
    (given.all fun kv => p kv.1) = given'.all fun kv => p kv.1 := by
  have hkeys : (given.map Prod.fst).Perm (given'.map Prod.fst) :=
    (Dict.keys_sorted given).symm.trans (h ▸ Dict.keys_sorted given')
  have hall := hkeys.all_eq (f := p)
  rwa [List.all_map, List.all_map] at hall

/-- Parameters that agree whatever the order of their keys make the same request. -/
theorem construct_congr (fields : RequestType) (h : params.sorted = params'.sorted) :
    (fields.construct params).map Dict.sorted = (fields.construct params').map Dict.sorted := by
  cases params with
  | obj given =>
    cases params' with
    | obj given' =>
      have hgiven : Dict.sorted given = Dict.sorted given' := Json.obj.inj h
      rw [RequestType.construct, RequestType.construct,
        allKeys_congr hgiven fun key => fields.any fun field => field.1 = key]
      split
      · exact mapM_congr fields (fill_congr hgiven)
      · rfl
    | _ => cases h
  | _ => cases params' <;> first | rfl | cases h

end Requests

section Signed

variable {effector : String} {request : Dict} {result : Option ActionResult} {i : SignedIntent}

/-- An effector that ran, with its request whatever the order of its keys. -/
def Outcome.execution : Outcome → Option (String × Dict)
  | .ran effector request _ => some (effector, request.sorted)
  | _ => none

/-- What ran, one after the other. -/
def executed (handled : List (Delivery × Outcome)) : List (String × Dict) :=
  handled.filterMap fun x => x.2.execution

/-- What a signed intent asks for. -/
def SignedIntent.execution (cfg : Config) (i : SignedIntent) : Option (String × Dict) :=
  (requestOf cfg i.effector (.obj i.params)).map fun request => (i.effector, request.sorted)

/-- A signature that verifies is over the text of an intent that was signed before. -/
def Unforged (cfg : Config) (mac : Text → String) (s : System) (moves : List Move) : Prop :=
  ∀ front d rest e, moves = front ++ .deliver d :: rest → verified cfg d.payload = some e →
    ∃ i ∈ (run cfg mac s front).signed, cfg.env.canonical i.body =
      cfg.env.canonical (presentedBody cfg.env d.payload e)

theorem sorted_signedBody (effector : String) (params : Json) (runId : String) (seq : ℤ) :
    (signedBody effector params runId seq).sorted = [("effector", .str effector),
      ("kind", .str act), ("params", params.sorted), ("run_id", .str runId),
        ("seq", .int seq)] := by
  simp [Dict.sorted, signedBody, Json.sortedEntries, Json.sorted]

/-- The text that is signed tells the fields. -/
theorem presents_signed (he : verified cfg d.payload = some e)
    (h : cfg.env.canonical i.body = cfg.env.canonical (presentedBody cfg.env d.payload e)) :
    i.effector = textOf cfg.env (Dict.get d.payload "effector") ∧
      (Json.obj i.params).sorted = (orEmpty (Dict.get d.payload "params")).sorted ∧
        i.runId = e.runId ∧
      i.seq = e.seq := by
  obtain ⟨mac, -, -, hverify⟩ := verified_eq_some.mp he
  have htext : ∃ t, cfg.env.canonical (presentedBody cfg.env d.payload e) = some t := by
    rw [verifyIntentSignature] at hverify
    split at hverify
    · cases hverify
    rw [computeIntentSignature, ← presentedBody] at hverify
    cases htext : cfg.env.canonical (presentedBody cfg.env d.payload e) with
    | none =>
      rw [htext] at hverify
      cases hverify
    | some t => exact ⟨t, rfl⟩
  obtain ⟨t, ht⟩ := htext
  have hsorted := cfg.env.canonical_injective (h.trans ht) ht
  rw [SignedIntent.body, presentedBody, sorted_signedBody, sorted_signedBody] at hsorted
  simpa using hsorted

/-- Only an effector that is enabled and registered runs, with the request of its intent. -/
theorem realize_ran (h : realize cfg d = .ran effector request result) :
    effector = textOf cfg.env (Dict.get d.payload "effector") ∧
      requestOf cfg effector (orEmpty (Dict.get d.payload "params")) = some request ∧
      effector ∈ cfg.enabledEffectors ∧ effector ∈ cfg.registered := by
  rw [realize] at h
  split at h
  · cases h
  split at h
  · cases h
  · rename_i made hmade
    rw [actOn] at h
    split_ifs at h with henabled hregistered
    cases h
    exact ⟨rfl, hmade, henabled, hregistered⟩

/-- The execution of an intent that presents what was signed is the one that was asked for. -/
theorem execution_signed (h : realize cfg d = .ran effector request result)
    (heffector : i.effector = textOf cfg.env (Dict.get d.payload "effector"))
    (hparams : (Json.obj i.params).sorted = (orEmpty (Dict.get d.payload "params")).sorted) :
    i.execution cfg = some (effector, request.sorted) := by
  obtain ⟨rfl, hrequest, -, -⟩ := realize_ran h
  obtain ⟨fields, hfields, hmade⟩ := Option.bind_eq_some_iff.mp hrequest
  have hsame := construct_congr fields hparams
  rw [hmade, Option.map_some, Option.map_eq_some_iff] at hsame
  obtain ⟨asked, hasked, hsorted⟩ := hsame
  rw [SignedIntent.execution, heffector, requestOf, hfields, Option.bind_some, hasked,
    Option.map_some, hsorted]

/-- The signer's numbers increase, and what ran was asked for by signed intents up to the mark. -/
structure Faithful (cfg : Config) (s : System) : Prop where
  increasing : s.signed.Pairwise fun a b => a.seq < b.seq
  minted : ∀ i ∈ s.signed, i.runId = s.signer.runId ∧ i.seq < s.signer.seq
  taken : ∃ taken : List SignedIntent, taken.Sublist s.signed ∧
    (∀ i ∈ taken, ∃ m ∈ s.loop.highWater.lookup s.signer.runId, i.seq ≤ m) ∧
    executed s.handled = taken.filterMap (SignedIntent.execution cfg)

theorem faithful_sign (h : Faithful cfg s) (effector : String) (params : Dict) :
    Faithful cfg (step cfg mac s (.sign effector params)) := by
  rw [step, IntentSigner.sign]
  cases computeIntentSignature cfg.env mac effector (.obj params) s.signer.runId s.signer.seq with
  | none =>
    rw [Option.map_none, Option.toList_none, List.append_nil]
    exact ⟨h.increasing, fun i hi => ⟨(h.minted i hi).1, (h.minted i hi).2.trans (lt_add_one _)⟩,
      h.taken⟩
  | some sig =>
    rw [Option.map_some, Option.toList_some]
    refine ⟨List.pairwise_append.mpr ⟨h.increasing, List.pairwise_singleton _ _, ?_⟩, ?_, ?_⟩
    · intro i hi j hj
      exact List.mem_singleton.mp hj ▸ (h.minted i hi).2
    · intro i hi
      rcases List.mem_append.mp hi with hi | hi
      · exact ⟨(h.minted i hi).1, (h.minted i hi).2.trans (lt_add_one _)⟩
      · rw [List.mem_singleton.mp hi]
        exact ⟨rfl, lt_add_one _⟩
    · obtain ⟨taken, hsub, hmarks, hexecuted⟩ := h.taken
      exact ⟨taken, hsub.trans (List.sublist_append_left _ _), hmarks, hexecuted⟩

/-- A mark only rises. -/
theorem mark_le {seq m : ℤ} (hfresh : replayed highWater e.runId e.seq = false)
    (hm : m ∈ highWater.lookup runId)
    (hle : seq ≤ m) : ∃ m ∈ (Assoc.assign highWater e.runId e.seq).lookup runId, seq ≤ m := by
  by_cases hrun : runId = e.runId
  · subst hrun
    rw [Assoc.lookup_assign_self]
    exact ⟨e.seq, rfl, hle.trans (replayed_eq_false.mp hfresh m hm).le⟩
  · rw [Assoc.lookup_assign_of_ne hrun]
    exact ⟨m, hm, hle⟩

theorem executed_concat (handled : List (Delivery × Outcome)) (out : Outcome) :
    executed (handled ++ [(d, out)]) = executed handled ++ out.execution.toList := by
  rw [executed, List.filterMap_append, ← executed]
  cases h : out.execution <;> simp [h]

theorem execution_accepted {out : Outcome} (h : out.isAccepted = false) : out.execution = none := by
  cases out <;> first | rfl | cases h

theorem faithful_deliver (hon : cfg.enforceProvenance = true) (h : Faithful cfg s) (d : Delivery)
    (hsigned : ∀ e, verified cfg d.payload = some e →
      ∃ i ∈ s.signed, cfg.env.canonical i.body = cfg.env.canonical
      (presentedBody cfg.env d.payload e)) :
    Faithful cfg { s with
      loop := (handleIntent cfg s.loop d).1
      handled := s.handled ++ [(d, (handleIntent cfg s.loop d).2)] } := by
  refine ⟨h.increasing, h.minted, ?_⟩
  obtain ⟨taken, hsub, hmarks, hexecuted⟩ := h.taken
  change ∃ taken : List SignedIntent, taken.Sublist s.signed ∧
    (∀ i ∈ taken, ∃ m ∈ (outcome cfg s.loop.highWater d).2.lookup s.signer.runId, i.seq ≤ m) ∧
    executed (s.handled ++ [(d, (outcome cfg s.loop.highWater d).1)]) =
      taken.filterMap (SignedIntent.execution cfg)
  rw [executed_concat]
  cases hout : (outcome cfg s.loop.highWater d).1.isAccepted with
  | false =>
    rw [execution_accepted hout, outcome_kept hout, Option.toList_none, List.append_nil]
    exact ⟨taken, hsub, hmarks, hexecuted⟩
  | true =>
    obtain ⟨-, hrealize, e, he, hfresh, hafter⟩ := outcome_accepted hon hout
    rw [hafter, hrealize]
    have hrisen : ∀ i ∈ taken, ∃ m ∈ (Assoc.assign s.loop.highWater e.runId e.seq).lookup
        s.signer.runId, i.seq ≤ m := by
      intro i hi
      obtain ⟨m, hm, hle⟩ := hmarks i hi
      exact mark_le hfresh hm hle
    cases hrun : realize cfg d with
    | ran effector request result =>
      obtain ⟨i, hi, hbody⟩ := hsigned e he
      obtain ⟨heffector, hparams, hrunId, hseq⟩ := presents_signed he hbody
      have hrunId' : s.signer.runId = e.runId := (h.minted i hi).1.symm.trans hrunId
      have hlast : ∀ j ∈ taken, j.seq < i.seq := by
        intro j hj
        obtain ⟨m, hm, hle⟩ := hmarks j hj
        rw [hseq]
        exact hle.trans_lt (replayed_eq_false.mp hfresh m (hrunId' ▸ hm))
      refine ⟨taken ++ [i], HighWater.sublist_of_increasing h.increasing ?_ ?_, ?_, ?_⟩
      · refine List.pairwise_append.mpr ⟨h.increasing.sublist hsub, List.pairwise_singleton _ _, ?_⟩
        intro j hj k hk
        exact List.mem_singleton.mp hk ▸ hlast j hj
      · intro j hj
        rcases List.mem_append.mp hj with hj | hj
        · exact hsub.subset hj
        · exact List.mem_singleton.mp hj ▸ hi
      · intro j hj
        rcases List.mem_append.mp hj with hj | hj
        · exact hrisen j hj
        · rw [List.mem_singleton.mp hj, hrunId', Assoc.lookup_assign_self]
          exact ⟨e.seq, rfl, hseq.le⟩
      · rw [List.filterMap_append, hexecuted, List.filterMap_cons,
          execution_signed hrun heffector hparams]
        rfl
    | _ => exact ⟨taken, hsub, hrisen, by rw [hexecuted]; exact List.append_nil _⟩

theorem faithful_run (hon : cfg.enforceProvenance = true) (h : Faithful cfg s)
    (hforged : Unforged cfg mac s moves) :
    Faithful cfg (run cfg mac s moves) := by
  induction moves using List.reverseRecOn with
  | nil => exact h
  | append_singleton moves move ih =>
    have hfront := ih fun front d rest e heq => hforged front d (rest ++ [move]) e (by simp [heq])
    rw [run_concat]
    cases move with
    | sign effector params => exact faithful_sign hfront effector params
    | deliver d =>
      rw [step]
      split
      · exact faithful_deliver hon hfront d fun e he => hforged moves d [] e rfl he
      · exact hfront
    | restart => exact ⟨hfront.increasing, hfront.minted, hfront.taken⟩

/-- An event that was read came to what its payload and the marks of the time say. -/
theorem mem_handled {x : Delivery × Outcome} (hx : x ∈ (run cfg mac s moves).handled) :
    x ∈ s.handled ∨ ∃ highWater, x.2 = (outcome cfg highWater x.1).1 := by
  induction moves using List.reverseRecOn with
  | nil => exact .inl hx
  | append_singleton moves move ih =>
    rw [run_concat] at hx
    cases move with
    | sign effector params => exact ih hx
    | deliver d =>
      rw [step] at hx
      split at hx
      · rcases List.mem_append.mp hx with hx | hx
        · exact ih hx
        · rw [List.mem_singleton.mp hx]
          exact .inr ⟨_, rfl⟩
      · exact ih hx
    | restart => exact ih hx

theorem outcome_ran (h : (outcome cfg highWater d).1 = .ran effector request result) :
    realize cfg d = .ran effector request result := by
  rw [outcome] at h
  split at h
  · cases h
  cases hverdict : verifyProvenance cfg highWater d.payload with
  | accepted after => rwa [hverdict] at h
  | rejected reason =>
    rw [hverdict] at h
    cases h
  | raised =>
    rw [hverdict] at h
    cases h

/-- In every run in which no signature is forged, whatever else is written to the stream and however
signed intents are repeated or reordered, what the effectors did is a part of what was signed, in
that order and each intent once; and each of them was enabled. -/
theorem executed_sublist (hon : cfg.enforceProvenance = true) (runId : String) (log : Option Text)
    (moves : List Move) (hforged : Unforged cfg mac (boot runId log) moves) :
    (executed (run cfg mac (boot runId log) moves).handled).Sublist
        ((run cfg mac (boot runId log) moves).signed.filterMap (SignedIntent.execution cfg)) ∧
      ∀ x ∈ executed (run cfg mac (boot runId log) moves).handled,
        x.1 ∈ cfg.enabledEffectors ∧ x.1 ∈ cfg.registered := by
  have hboot : Faithful cfg (boot runId log) := by
    refine ⟨List.Pairwise.nil, ?_, [], List.Sublist.refl _, ?_, rfl⟩
    · intro i hi
      cases hi
    · intro i hi
      cases hi
  obtain ⟨taken, hsub, -, hexecuted⟩ := (faithful_run hon hboot hforged).taken
  refine ⟨hexecuted ▸ hsub.filterMap _, ?_⟩
  intro x hx
  obtain ⟨read, hmem, hexecution⟩ := List.mem_filterMap.mp hx
  rcases mem_handled hmem with hmem | ⟨highWater, hcame⟩
  · cases hmem
  rw [hcame] at hexecution
  cases hout : (outcome cfg highWater read.1).1 with
  | ran effector request result =>
    rw [hout] at hexecution
    cases hexecution
    obtain ⟨-, -, hmembers⟩ := realize_ran (outcome_ran hout)
    exact hmembers
  | _ =>
    rw [hout] at hexecution
    cases hexecution

theorem unforged_sample : Unforged signingConfig sampleMac (boot "run-1" none) sampleMoves := by
  intro front d rest e h he
  rcases front with _ | ⟨a, _ | ⟨b, _ | ⟨c, _ | ⟨f, front⟩⟩⟩⟩
  · cases h
  · cases h
    exact absurd (borrowed_verified.symm.trans he) (by simp)
  · cases h
    cases greeted_verified.symm.trans he
    exact ⟨signedGreeting, came_borrowed.signed ▸ List.mem_singleton_self _, rfl⟩
  · cases h
    cases greeted_verified.symm.trans he
    exact ⟨signedGreeting, came_greeted.signed ▸ List.mem_singleton_self _, rfl⟩
  · simp [sampleMoves] at h

theorem executed_sample :
    (executed (run signingConfig sampleMac (boot "run-1" none) sampleMoves).handled).Sublist
        ((run signingConfig sampleMac (boot "run-1" none) sampleMoves).signed.filterMap
          (SignedIntent.execution signingConfig)) ∧
      ∀ x ∈ executed (run signingConfig sampleMac (boot "run-1" none) sampleMoves).handled,
        x.1 ∈ signingConfig.enabledEffectors ∧ x.1 ∈ signingConfig.registered :=
  executed_sublist rfl "run-1" none sampleMoves unforged_sample

end Signed

section Records

/-- What the module appends to its log for the events that it read. -/
def attemptsOf (cfg : Config) (handled : List (Delivery × Outcome)) : List Attempt :=
  handled.filterMap fun x => (x.2.report cfg x.1).map fun report =>
    ⟨report.entry, x.1.opens, x.1.written⟩

theorem log_handleIntent (cfg : Config) (loop : Loop) (d : Delivery) :
    (handleIntent cfg loop d).1.log = Effectors.run cfg.env loop.log
      (attemptsOf cfg [(d, (handleIntent cfg loop d).2)]) := by
  rw [handleIntent, attemptsOf]
  cases hreport : (outcome cfg loop.highWater d).1.report cfg d <;> simp [hreport, Effectors.run]

/-- The module writes nothing to its log but the records of the events that it read. -/
theorem log_run (log : Option Text) (moves : List Move) :
    (run cfg mac (boot runId log) moves).loop.log =
      Effectors.run cfg.env log (attemptsOf cfg (run cfg mac (boot runId log) moves).handled) := by
  induction moves using List.reverseRecOn with
  | nil => rfl
  | append_singleton moves move ih =>
    rw [run_concat]
    cases move with
    | sign effector params => exact ih
    | deliver d =>
      rw [step]
      split
      · have hlog := log_handleIntent cfg (run cfg mac (boot runId log) moves).loop d
        rw [ih] at hlog
        rw [attemptsOf, List.filterMap_append, Effectors.run, List.foldl_append]
        exact hlog
      · exact ih
    | restart => exact ih

theorem mem_attemptsOf {log : Option Text} {attempt : Attempt}
    (h : attempt ∈ attemptsOf cfg (run cfg mac (boot runId log) moves).handled) :
    ∃ d, .deliver d ∈ moves ∧ attempt.opens = d.opens ∧ attempt.written = d.written := by
  obtain ⟨⟨d, out⟩, hmem, hreport⟩ := List.mem_filterMap.mp h
  obtain ⟨report, -, rfl⟩ := Option.map_eq_some_iff.mp hreport
  refine ⟨d, ?_, rfl, rfl⟩
  clear h hreport
  induction moves using List.reverseRecOn with
  | nil => cases hmem
  | append_singleton moves move ih =>
    rw [run_concat] at hmem
    cases move with
    | sign effector params => exact List.mem_append_left _ (ih hmem)
    | deliver other =>
      rw [step] at hmem
      split at hmem
      · rcases List.mem_append.mp hmem with hmem | hmem
        · exact List.mem_append_left _ (ih hmem)
        · cases List.mem_singleton.mp hmem
          exact List.mem_append_right _ (List.mem_singleton_self _)
      · exact List.mem_append_left _ (ih hmem)
    | restart => exact List.mem_append_left _ (ih hmem)

/-- Over every run whose lines are written in full or not at all, the log verifies and holds behind
its earlier records those of what the boundary refused, what was blocked or unknown and what ran,
one after the other. -/
theorem verify_handled {log : Option Text} {entries : List AuditEntry} {prev : String}
    (hlog : Holds cfg.env log entries prev)
    (hsound : ∀ d, .deliver d ∈ moves → d.opens = true ∧ (d.written = .whole ∨ d.written = .part 0))
    (hlines : Serialises cfg.env log
      (attemptsOf cfg (run cfg mac (boot runId log) moves).handled)) :
    verify cfg.env none (run cfg mac (boot runId log) moves).loop.log = some ⟨true, none, ""⟩ ∧
      contents cfg.env (run cfg mac (boot runId log) moves).loop.log =
        (entries ++ keptEntries (attemptsOf cfg (run cfg mac (boot runId log) moves).handled)).map
          fun entry => entry.core.sorted := by
  have hattempts : ∀ attempt ∈ attemptsOf cfg (run cfg mac (boot runId log) moves).handled,
    attempt.Sound := by
    intro attempt hattempt
    obtain ⟨d, hd, hopens, hwritten⟩ := mem_attemptsOf hattempt
    rw [Attempt.Sound, hopens, hwritten]
    exact hsound d hd
  obtain ⟨this, hholds⟩ := holds_run hlog hattempts hlines
  rw [log_run]
  exact ⟨verify_holds hholds, contents_holds hholds⟩

theorem signing_this : linkHash signingEnv genesisHash firstEntry.core = some firstHash := by
  have hbody : signingEnv.canonical firstEntry.core = some firstBody :=
    find_listed signing_keys (.head _)
  have hdigest : signingEnv.link genesisHash firstBody = firstHash := by
    rw [AuditEnv.link, signingEnv]
    exact hexdigest_ofTexts digests_nodup (.head _)
  rw [linkHash, hbody, Option.map_some, hdigest]

theorem signing_dumps :
    signingEnv.dumps (withHashes firstEntry.core genesisHash firstHash) = some firstLine :=
  find_listed rows_nodup (.head _)

theorem signing_first : entryLine signingEnv genesisHash firstEntry = some firstLine := by
  rw [entryLine, signing_this, Option.bind_some, signing_dumps]

theorem signing_second : entryLine signingEnv firstHash secondEntry = some secondLine := by
  have hbody : signingEnv.canonical secondEntry.core = some secondBody :=
    find_listed signing_keys (.tail _ (.head _))
  have hdigest : signingEnv.link firstHash secondBody = secondHash := by
    rw [AuditEnv.link, signingEnv]
    exact hexdigest_ofTexts digests_nodup (.tail _ (.head _))
  have hdumps : signingEnv.dumps (withHashes secondEntry.core firstHash secondHash) =
    some secondLine :=
    find_listed rows_nodup (.tail _ (.head _))
  rw [entryLine, linkHash, hbody, Option.map_some, hdigest, Option.bind_some, hdumps]

/-- The two refusals are recorded; of the effector that raised nothing is. -/
theorem attemptsOf_sample :
    attemptsOf signingConfig (run signingConfig sampleMac (boot "run-1" none) sampleMoves).handled =
    [⟨firstEntry, true, .whole⟩, ⟨secondEntry, true, .whole⟩] := by
  rw [came_again.handled]
  rfl

theorem serialises_refusals :
    Serialises signingEnv none [⟨firstEntry, true, .whole⟩, ⟨secondEntry, true, .whole⟩] := by
  have hrecorded : Recorded signingEnv [firstEntry] [firstLine] firstHash :=
      .snoc .nil signing_this signing_dumps
  have hfirst : entryLine signingEnv (lastHash signingEnv true none) firstEntry = some firstLine :=
      signing_first
  have hadded : Written.whole.of (firstLine ++ [Text.newline]) = firstLine ++ [Text.newline] := rfl
  have hlog : append signingEnv none ⟨firstEntry, true, .whole⟩ =
    some (recordText [firstLine]) := by
    let whole : Attempt := ⟨firstEntry, true, .whole⟩
    have hline : entryLine signingEnv (lastHash signingEnv whole.opens none) whole.entry =
      some firstLine :=
        hfirst
    have happend := append_line hline hadded (by simp)
    rw [happend, recordText, List.flatMap_singleton, Option.getD_none, List.nil_append]
  intro front attempt rest h
  rcases front with _ | ⟨a, _ | ⟨b, front⟩⟩
  · cases h
    exact Option.isSome_iff_exists.mpr ⟨firstLine, signing_first⟩
  · cases h
    rw [Effectors.run, List.foldl_cons, List.foldl_nil, hlog, lastHash_recorded hrecorded]
    exact Option.isSome_iff_exists.mpr ⟨secondLine, signing_second⟩
  · simp at h

theorem sampleMoves_whole (hd : .deliver d ∈ sampleMoves) :
    d.opens = true ∧ (d.written = .whole ∨ d.written = .part 0) := by
  simp only [sampleMoves, List.mem_cons, Move.deliver.injEq, reduceCtorEq,
    List.not_mem_nil, or_false, false_or] at hd
  rcases hd with rfl | rfl | rfl <;> exact ⟨rfl, .inl rfl⟩

theorem verify_refusals :
    verify signingConfig.env none (run signingConfig sampleMac (boot "run-1" none)
        sampleMoves).loop.log = some ⟨true, none, ""⟩ ∧
      contents signingConfig.env (run signingConfig sampleMac (boot "run-1" none)
        sampleMoves).loop.log = ([] ++ keptEntries (attemptsOf signingConfig
            (run signingConfig sampleMac (boot "run-1" none) sampleMoves).handled)).map
          fun entry : AuditEntry => entry.core.sorted :=
  verify_handled holds_absent (fun _ => sampleMoves_whole) (by
    rw [attemptsOf_sample]
    exact serialises_refusals)

end Records

section Ended

/-- A signature that is not ASCII, under which all else is in shape. Neither the secret nor a number
of the run goes into it. -/
def Chokes (cfg : Config) (payload : Dict) : Prop :=
  cfg.enforceProvenance = true ∧ cfg.mac.isSome = true ∧
    ∃ e, envelopeOf payload = .ok e ∧ isAscii e.signature = false ∧
      (cfg.env.canonical (presentedBody cfg.env payload e)).isSome = true

/-- An intent after which the loop is no more. -/
def Ends (cfg : Config) (highWater : List (String × ℤ)) (d : Delivery) : Prop :=
  isAct cfg d = true ∧ (Chokes cfg d.payload ∨
    (∃ reason, verifyProvenance cfg highWater d.payload = .rejected reason) ∧ d.publishes = false)

theorem signature_ne_nil (h : envelopeOf payload = .ok e) : e.signature ≠ "" := by
  unfold envelopeOf at h
  cases hsig : nonemptyText (Dict.get payload "sig") with
  | none =>
    rw [hsig] at h
    cases h
  | some signature =>
    rw [hsig] at h
    dsimp only at h
    split at h
    · cases h
    split at h
    · cases h
    cases h
    unfold nonemptyText at hsig
    split at hsig
    · split_ifs at hsig with hne
      cases hsig
      exact hne
    · cases hsig

theorem raised_iff (highWater : List (String × ℤ)) :
    verifyProvenance cfg highWater payload = .raised ↔ Chokes cfg payload := by
  rw [verifyProvenance, Chokes]
  cases cfg.enforceProvenance with
  | false => simp
  | true =>
    rw [Bool.not_true, if_neg Bool.false_ne_true]
    cases cfg.mac with
    | none => simp
    | some mac =>
      cases henvelope : envelopeOf payload with
      | error reason => simp
      | ok e =>
        dsimp only
        rw [verifyIntentSignature, if_neg (signature_ne_nil henvelope), computeIntentSignature,
          ← presentedBody]
        cases htext : cfg.env.canonical (presentedBody cfg.env payload e) with
        | none => simp [htext]
        | some t =>
          rw [Option.map_some]
          dsimp only
          cases hascii : isAscii e.signature with
          | false => simp [hascii, htext]
          | true =>
            by_cases hmac : mac t = e.signature
            · simp only [hmac, if_pos, decide_true]
              split <;> simp [hascii]
            · simp [hascii, hmac]

/-- A live loop ends at such an intent, and at no other. -/
theorem handleIntent_ends : (handleIntent cfg loop d).1.alive = false ↔
    Ends cfg loop.highWater d := by
  rw [Ends, ← raised_iff loop.highWater, handleIntent, outcome, isAct, decide_eq_true_iff]
  by_cases hkind : textOf cfg.env (Dict.get d.payload "kind") = act
  swap
  · rw [if_pos hkind]
    simp [hkind, Outcome.ends]
  rw [if_neg (not_not.mpr hkind)]
  cases hverdict : verifyProvenance cfg loop.highWater d.payload with
  | accepted after =>
    have haccepted := realize_accepted cfg d
    cases hrealize : realize cfg d <;> simp [hrealize, Outcome.isAccepted, Outcome.ends]
      at haccepted ⊢
  | rejected reason => simp [hkind, Outcome.ends]
  | raised => simp [hkind, Outcome.ends]

theorem handleIntent_chokes (hact : isAct cfg d = true) (h : Chokes cfg d.payload) :
    handleIntent cfg loop d = ({ loop with alive := false }, .raised) := by
  rw [handleIntent, outcome, if_neg (not_not.mpr (of_decide_eq_true hact)), (raised_iff _).mpr h]
  simp [Outcome.report, Outcome.ends]

/-- A loop has ended exactly where, since the last restart, it read an intent that ends it: one
whose signature is not ASCII, of which nothing is recorded, or one that is refused while the bus
takes nothing. Of what came behind it nothing was read. -/
theorem loop_ended_iff (halive : s.loop.alive = true) (moves : List Move) :
    (run cfg mac s moves).loop.alive = false ↔
    ∃ front d rest, moves = front ++ .deliver d :: rest ∧ .restart ∉ rest ∧
      (run cfg mac s front).loop.alive = true ∧ Ends cfg (run cfg mac s front).loop.highWater d ∧
      (run cfg mac s moves).loop = (handleIntent cfg (run cfg mac s front).loop d).1 ∧
      (run cfg mac s moves).handled =
        (run cfg mac s front).handled ++ [(d, (handleIntent cfg (run cfg mac s front).loop d).2)] ∧
      (Chokes cfg d.payload → (run cfg mac s moves).loop =
        { (run cfg mac s front).loop with alive := false }) := by
  constructor
  · intro hended
    induction moves using List.reverseRecOn with
    | nil => exact absurd (halive.symm.trans hended) (by decide)
    | append_singleton moves move ih =>
      rw [run_concat] at hended ⊢
      cases hbefore : (run cfg mac s moves).loop.alive with
      | false =>
        obtain ⟨front, d, rest, rfl, hrest, hfront, hends, hloop, hhandled, hchokes⟩ := ih hbefore
        cases move with
        | sign effector params =>
          exact ⟨front, d, rest ++ [.sign effector params], by simp, by simpa using hrest, hfront,
            hends, hloop, hhandled, hchokes⟩
        | deliver other =>
          rw [step, hbefore, if_neg Bool.false_ne_true]
          exact ⟨front, d, rest ++ [.deliver other], by simp, by simpa using hrest, hfront,
            hends, hloop, hhandled, hchokes⟩
        | restart => cases hended
      | true =>
        cases move with
        | sign effector params => exact absurd (hbefore.symm.trans hended) (by decide)
        | restart => cases hended
        | deliver d =>
          rw [step, hbefore, if_pos rfl] at hended ⊢
          have hends := handleIntent_ends.mp hended
          refine ⟨moves, d, [], rfl, List.not_mem_nil, hbefore, hends, rfl, rfl, ?_⟩
          intro hchokes
          exact congrArg Prod.fst (handleIntent_chokes hends.1 hchokes)
  · rintro ⟨front, d, rest, -, -, -, hends, hloop, -, -⟩
    rw [hloop]
    exact handleIntent_ends.mpr hends

/-- An intent of nobody, under one letter that is not ASCII. -/
def choking : Delivery := ⟨actPayload "shell" listing 7 "é", .fin 1700000000, true, .whole,
      true, none⟩

theorem chokes_sample : Chokes signingConfig choking.payload := by
  refine ⟨rfl, rfl, ⟨"é", "run-1", 7⟩, rfl, by decide, ?_⟩
  exact Option.isSome_iff_exists.mpr ⟨listingText, listing_canonical⟩

theorem ended_sample :
    (run signingConfig sampleMac (boot "run-1" none) [.deliver choking,
      .sign "notify" greeting]).loop.alive = false :=
  (loop_ended_iff rfl _).mpr ⟨[], choking, [.sign "notify" greeting], rfl, by simp, rfl,
    ⟨rfl, .inl chokes_sample⟩, rfl, rfl, fun h => congrArg Prod.fst (handleIntent_chokes rfl h)⟩

end Ended

end Kaine.Provenance
