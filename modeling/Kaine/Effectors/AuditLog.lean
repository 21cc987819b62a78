import Kaine.Lib.HashChain
import Kaine.Lib.JsonText
import Kaine.Lib.TextLines
import Mathlib.Data.List.TakeWhile

/-! The hash-chained log of what the effectors did (`kaine/modules/effectors/audit_log.py`). What
`verify` says of a log: of one that was appended to, of one that was tampered with, and of two that
end alike. -/
namespace Kaine.Effectors
open Py

/-- How `json.loads` raises. -/
inductive LoadError
  | jsonDecodeError
  | other
deriving DecidableEq

/-- A dict whose first key in order begins with a letter. -/
def Worded (d : Dict) : Prop :=
  ∃ letter name v rest, d.sorted = (String.ofList (letter :: name), v) :: rest ∧
    letter.isAlpha = true

/-- What the log rests on: `json.dumps` with sorted keys, in compact form and as it stands,
`json.loads`, `str` of what is no string, and SHA-256 in hex of a text in UTF-8. The dumps are none
where they raise. -/
structure AuditEnv where
  canonical : Dict → Option Text
  dumps : Dict → Option Text
  loads : Text → Except LoadError Json
  repr : Json → String
  hexdigest : Text → String
  canonical_sorted (d : Dict) : canonical d.sorted = canonical d
  canonical_injective {d e : Dict} {t : Text} (h : canonical d = some t)
    (h' : canonical e = some t) : d.sorted = e.sorted
  loads_dumps {d : Dict} {t : Text} (h : dumps d = some t) : loads t = .ok (.obj d.sorted)
  /-- The text of an object begins with a brace, and no control character is in it. -/
  dumps_plain {d : Dict} {t : Text} (h : dumps d = some t) :
    (∃ body, t = CodePoint.openBrace :: body) ∧ ∀ c ∈ t, 32 ≤ c.val
  /-- The beginnings of objects' texts, one behind the other, hold no value, but for one text alone
  that is whole. -/
  loads_pieces {d : Dict} {t cut : Text} {pieces : List Text} (hd : Worded d)
    (ht : dumps d = some t) (hcut : cut <+: t)
    (hne : cut ≠ []) (hpieces : ∀ p ∈ pieces, p ≠ [] ∧ ∃ d t, Worded d ∧ dumps d = some t ∧ p <+: t)
    (htorn : cut ≠ t ∨ pieces ≠ []) : ∃ e, loads (cut ++ pieces.flatten) = .error e
  length_hexdigest (t : Text) : (hexdigest t).length = 64

/-- `GENESIS_HASH`. -/
def genesisHash : String := String.ofList (List.replicate 64 '0')

/-- `_HASH_FIELDS`. -/
def hashFields : List String := ["prev_hash", "this_hash"]

/-- `_FORBIDDEN_KEYS`. -/
def forbiddenKeys : List String := ["content", "body", "stdout"]

/-- The hash of a link, over the text of a record's substance. -/
def AuditEnv.link (env : AuditEnv) (prev : String) (body : Text) : String :=
    env.hexdigest (Text.ofString prev ++ body)

/-- `_link_hash`, none where it raises. -/
def linkHash (env : AuditEnv) (prev : String) (core : Dict) : Option String :=
    (env.canonical core).map (env.link prev)

/-- `str(v)`. -/
def AuditEnv.str (env : AuditEnv) : Json → String
  | .str s => s
  | v => env.repr v

structure AuditChainResult where
  ok : Bool
  brokenIndex : Option ℕ
  detail : String
deriving DecidableEq

/-- `_sanitize`. -/
def sanitize (summary : Dict) : Dict := summary.filter fun kv => kv.1 ∉ forbiddenKeys

/-- The arguments of `append`, with the time it reads. -/
structure AuditEntry where
  timestamp : PyFloat
  effector : String
  requestSummary : Dict
  success : Bool
  elapsedMs : PyFloat
  error : Option String
  blocked : Bool
  provenanceRejected : Bool

def AuditEntry.core (entry : AuditEntry) : Dict :=
  [("timestamp", .float entry.timestamp), ("effector", .str entry.effector),
   ("request", .obj (sanitize entry.requestSummary)), ("success", .bool entry.success),
   ("elapsed_ms", .float entry.elapsedMs), ("error", (entry.error.map Json.str).getD .null),
   ("blocked", .bool entry.blocked), ("provenance_rejected", .bool entry.provenanceRejected)]

/-- The record of a core with its two hashes. -/
def withHashes (core : Dict) (prev this : String) : Dict :=
  core ++ [("prev_hash", .str prev), ("this_hash", .str this)]

/-- The lines that are not blank. -/
def nonblank (lines : List Text) : List Text := lines.filter fun line => line.strip ≠ []

/-- `str(json.loads(last)["this_hash"])`, the genesis where it raises. -/
def thisHash (env : AuditEnv) (last : Text) : String :=
  match env.loads last with
  | .ok (.obj record) => ((record.lookup "this_hash").map env.str).getD genesisHash
  | _ => genesisHash

/-- `_last_hash` of the log, absent or its text; the file may not open. -/
def lastHash (env : AuditEnv) (opens : Bool) (log : Option Text) : String :=
  match log with
  | none => genesisHash
  | some text =>
    if opens then ((nonblank text.lines).getLast?.map (thisHash env)).getD genesisHash
      else genesisHash

/-- How much of a line `os.write` wrote: none of it, too, where opening or writing raises. -/
inductive Written
  | whole
  | part (n : ℕ)

def Written.of : Written → Text → Text
  | .whole, line => line
  | .part n, line => line.take n

/-- A call of `append`: what it is given, whether the log opens for reading, and how much is
written. -/
structure Attempt where
  entry : AuditEntry
  opens : Bool
  written : Written

/-- The line of a record after a link, none where it raises. -/
def entryLine (env : AuditEnv) (prev : String) (entry : AuditEntry) : Option Text :=
  (linkHash env prev entry.core).bind fun this => env.dumps (withHashes entry.core prev this)

/-- `append`: the log after it, also where it raises. -/
def append (env : AuditEnv) (log : Option Text) (attempt : Attempt) : Option Text :=
  match entryLine env (lastHash env attempt.opens log) attempt.entry with
  | none => log
  | some line =>
    match attempt.written.of (line ++ [Text.newline]) with
    | [] => log
    | added => some (log.getD [] ++ added)

/-- The substance of a record that is read. -/
def coreOf (record : Dict) : Dict := record.filter fun kv => kv.1 ∉ hashFields

/-- The walk of `verify` over the lines of the log, from a link and a count of records; none where
it raises. -/
def verifyLines (env : AuditEnv) (prev : String) (idx : ℕ) : List Text → Option AuditChainResult
  | [] => some ⟨true, none, ""⟩
  | line :: rest =>
    if line.strip = [] then verifyLines env prev idx rest
    else
      match env.loads line with
      | .error .jsonDecodeError => some ⟨false, some idx, "record is not valid JSON"⟩
      | .ok (.obj record) =>
        let core := coreOf record
        if Dict.get record "prev_hash" ≠ .str prev then
          some ⟨false, some idx, "prev_hash breaks the chain (reordered or truncated history)"⟩
        else
          match linkHash env prev core with
          | none => none
          | some expected =>
            if Dict.get record "this_hash" ≠ .str expected then
              some ⟨false, some idx, "this_hash does not match record contents (edited)"⟩
            else verifyLines env expected (idx + 1) rest
      -- `record.items` of what is no dict raises, and so does any other failure of the parser.
      | _ => none

/-- `verify`, none where it raises; `failure` is the text of an `OSError` in opening the log. -/
def verify (env : AuditEnv) (failure : Option String) (log : Option Text) :
    Option AuditChainResult :=
  match log, failure with
  | none, _ => some ⟨true, none, ""⟩
  | some _, some exc => some ⟨false, none, "cannot read audit log: " ++ exc⟩
  | some text, none => verifyLines env genesisHash 0 text.lines

open HashChain

variable {env : AuditEnv} {prev : String} {idx : ℕ} {line t : Text} {lines front rest : List Text}
  {text : Text} {record : Dict} {item : Item String Text} {items : List (Item String Text)}

/-- A line holds a record with these hashes, over this text of its substance. -/
def Reads (env : AuditEnv) (line : Text) (item : Item String Text) : Prop :=
  ∃ record, env.loads line = .ok (.obj record) ∧ Dict.get record "prev_hash" = .str item.prev ∧
    env.canonical (coreOf record) = some item.content ∧ Dict.get record "this_hash" = .str item.this

/-- The record that a line holds. -/
def recordOf (env : AuditEnv) (line : Text) : Option Dict :=
  (env.loads line).toOption.bind Json.asDict

section Sample

def closeBrace : CodePoint := CodePoint.ofNat 125

/-- Braces that open are closed at once. -/
def closesAtOnce : Text → Bool
  | [] => true
  | c :: t => (c ≠ CodePoint.openBrace || t.head? = some closeBrace) && closesAtOnce t

theorem head_of_closesAtOnce {before after : Text}
    (h : closesAtOnce (before ++ CodePoint.openBrace :: after) = true) :
    after.head? = some closeBrace := by
  induction before with
  | nil =>
    rw [List.nil_append, closesAtOnce, Bool.and_eq_true] at h
    simpa using h.1
  | cons c before ih =>
    rw [List.cons_append, closesAtOnce, Bool.and_eq_true] at h
    exact ih h.2

/-- The texts of records that differ in their first characters: each an object without others but
empty ones, that begins with a key. -/
def RecordTexts (texts : List Text) : Prop :=
  (texts.map (List.take 40)).Nodup ∧ (∀ t ∈ texts, 40 ≤ t.length) ∧
    ∀ t ∈ texts, t.take 2 = [CodePoint.openBrace, CodePoint.ofNat 34] ∧ closesAtOnce t.tail = true ∧
      (t.all fun c => 32 ≤ c.val) = true

theorem RecordTexts.begins {texts : List Text} (h : RecordTexts texts) {t : Text} (ht : t ∈ texts) :
    ∃ body, t = CodePoint.openBrace :: CodePoint.ofNat 34 :: body := by
  have hsplit := List.take_append_drop 2 t
  rw [(h.2.2 t ht).1] at hsplit
  exact ⟨t.drop 2, hsplit.symm⟩

theorem RecordTexts.eq_of_init {texts : List Text} (h : RecordTexts texts) {t u : Text}
    (ht : t ∈ texts) (hu : u ∈ texts)
    (hinit : t <+: u) : t = u := by
  obtain ⟨rest, rfl⟩ := hinit
  have htake : t.take 40 = (t ++ rest).take 40 := (List.take_append_of_le_length (h.2.1 t ht)).symm
  exact List.inj_on_of_nodup_map h.1 ht hu htake

/-- Pieces of the texts are none of them together. -/
theorem RecordTexts.pieces {texts : List Text} (h : RecordTexts texts) {t cut : Text}
    {pieces : List Text} (ht : t ∈ texts)
    (hcut : cut <+: t) (hne : cut ≠ []) (hpieces : ∀ p ∈ pieces, p ≠ [] ∧ ∃ u ∈ texts, p <+: u)
    (htorn : cut ≠ t ∨ pieces ≠ []) : cut ++ pieces.flatten ∉ texts := by
  intro hall
  cases pieces with
  | nil =>
    rw [List.flatten_nil, List.append_nil] at hall
    exact htorn.elim (fun hcutne => hcutne (h.eq_of_init hall ht hcut)) fun hnil => hnil rfl
  | cons p more =>
    obtain ⟨hp, u, hu, hinit⟩ := hpieces p List.mem_cons_self
    obtain ⟨body, rfl⟩ := h.begins hu
    obtain ⟨-, hcloses, -⟩ := h.2.2 _ hall
    obtain ⟨c, p, rfl⟩ := List.exists_cons_of_ne_nil hp
    obtain ⟨first, cut, rfl⟩ := List.exists_cons_of_ne_nil hne
    obtain ⟨rfl, hrest⟩ := List.cons_prefix_cons.mp hinit
    rw [List.flatten_cons, List.cons_append, List.cons_append, List.tail_cons] at hcloses
    have hhead := head_of_closesAtOnce hcloses
    cases p with
    | cons d p =>
      obtain ⟨rfl, -⟩ := List.cons_prefix_cons.mp hrest
      exact absurd (Option.some.inj hhead) (by decide)
    | nil =>
      cases more with
      | nil => cases hhead
      | cons q more =>
        obtain ⟨hq, v, hv, hqinit⟩ := hpieces q (List.mem_cons_of_mem _ List.mem_cons_self)
        obtain ⟨body', rfl⟩ := h.begins hv
        obtain ⟨c, q, rfl⟩ := List.exists_cons_of_ne_nil hq
        obtain ⟨rfl, -⟩ := List.cons_prefix_cons.mp hqinit
        exact absurd (Option.some.inj hhead) (by decide)

/-- A text that is listed for a dict is in its row. -/
theorem mem_of_listed {rows : List (Dict × Text)} {d : Dict} {t : Text}
    (h : (rows.find? fun row => row.1 = d).map Prod.snd = some t) : (d, t) ∈ rows := by
  obtain ⟨row, hrow, rfl⟩ := Option.map_eq_some_iff.mp h
  have hd : row.1 = d := by simpa using List.find?_some hrow
  exact hd ▸ List.mem_of_find?_eq_some hrow

/-- The log's surroundings of which the texts of cores and records, and the digests, are listed. -/
def AuditEnv.ofTexts (cores rows : List (Dict × Text)) (digests : List (Text × String))
    (repr : Json → String) (hcores : (cores.map Prod.snd).Nodup)
    (hrows : RecordTexts (rows.map Prod.snd))
    (hdigests : ∀ row ∈ digests, row.2.length = 64) : AuditEnv :=
  { canonical := fun d => (cores.find? fun row => row.1.sorted = d.sorted).map Prod.snd
    dumps := fun d => (rows.find? fun row => row.1 = d).map Prod.snd
    loads := fun t =>
      match rows.find? fun row => row.2 = t with
      | some row => .ok (.obj row.1.sorted)
      | none => .error .jsonDecodeError
    repr
    hexdigest := fun t => ((digests.find? fun row => row.1 = t).map Prod.snd).getD genesisHash
    canonical_sorted := fun d => by rw [Dict.sorted_sorted]
    canonical_injective := fun {d e t} h h' => by
      obtain ⟨row, hfound, rfl⟩ := Option.map_eq_some_iff.mp h
      obtain ⟨row', hfound', htext⟩ := Option.map_eq_some_iff.mp h'
      have hd : row.1.sorted = d.sorted := by simpa using List.find?_some hfound
      have he : row'.1.sorted = e.sorted := by simpa using List.find?_some hfound'
      have hsame := List.inj_on_of_nodup_map hcores (List.mem_of_find?_eq_some hfound')
        (List.mem_of_find?_eq_some hfound) htext
      rw [← hd, ← he, hsame]
    loads_dumps := fun {d t} h => by
      have hmem := mem_of_listed h
      cases hfound : rows.find? fun row => row.2 = t with
      | none => exact absurd (decide_eq_true rfl) (List.find?_eq_none.mp hfound _ hmem)
      | some other =>
        have htext : other.2 = t := by simpa using List.find?_some hfound
        have hnodup : (rows.map Prod.snd).Nodup := List.Nodup.of_map _ hrows.1
        rw [List.inj_on_of_nodup_map hnodup (List.mem_of_find?_eq_some hfound) hmem htext]
    dumps_plain := fun {d t} h => by
      have hmem : t ∈ rows.map Prod.snd := List.mem_map_of_mem (mem_of_listed h)
      obtain ⟨body, hbody⟩ := hrows.begins hmem
      exact ⟨⟨_, hbody⟩, fun c hc => of_decide_eq_true
        (List.all_eq_true.mp (hrows.2.2 t hmem).2.2 c hc)⟩
    loads_pieces := fun {d t cut pieces} _ ht hcut hne hpieces htorn => by
      have hnone := hrows.pieces (List.mem_map_of_mem (mem_of_listed ht)) hcut hne
        (fun p hp => ⟨(hpieces p hp).1, by
          obtain ⟨-, e, u, -, hu, hinit⟩ := hpieces p hp
          exact ⟨u, List.mem_map_of_mem (mem_of_listed hu), hinit⟩⟩) htorn
      refine ⟨.jsonDecodeError, ?_⟩
      cases hfound : rows.find? fun row => row.2 = cut ++ pieces.flatten with
      | none => rfl
      | some other =>
        have htext : other.2 = cut ++ pieces.flatten := by simpa using List.find?_some hfound
        exact absurd (htext ▸ List.mem_map_of_mem (List.mem_of_find?_eq_some hfound)) hnone
    length_hexdigest := fun t => by
      cases hfound : digests.find? fun row => row.1 = t with
      | none => rfl
      | some row => exact hdigests row (List.mem_of_find?_eq_some hfound) }

/-- The records of two intents that were refused, a second and a half apart. -/
def firstEntry : AuditEntry :=
  ⟨.fin 1700000000, "shell", [], false, .fin 0, some "act intent signature is invalid", false, true⟩

def secondEntry : AuditEntry :=
  ⟨.fin (3400000003 / 2), "notify", [], false, .fin 0, some "act intent already realized (replay)",
    false, true⟩

def firstHash : String := "3c8317340c2dc56344e43a0d3c1d5bee1956ace58a5157c53ea1f028e4442713"
def secondHash : String := "bede8923808b810b6e9f13664d2807ef1b6b9d36f8299497719341d0d99a056a"

def firstBody : Text :=
  ["\x7b\"blocked\":false,\"effector\":\"shell\",\"elapsed_ms\":0.0,\"error\":\"act ",
   "intent signature is ",
   "invalid\",\"provenance_rejected\":true,\"request\":\x7b\x7d,",
   "\"success\":false,\"timestamp\":1700000000.0\x7d"].flatMap Text.ofString

def secondBody : Text :=
  ["\x7b\"blocked\":false,\"effector\":\"notify\",\"elapsed_ms\":0.0,\"error\":\"act ",
   "intent already realized ",
   "(replay)\",\"provenance_rejected\":true,\"request\":\x7b\x7d,",
   "\"success\":false,\"timestamp\":1700000001.5\x7d"].flatMap Text.ofString

def firstLine : Text :=
  ["\x7b\"blocked\": false, \"effector\": \"shell\", \"elapsed_ms\": 0.0, ",
   "\"error\": \"act intent signature is invalid\", \"prev_hash\": ",
   "\"0000000000000000000000000000000000000000000000000000000000000000\", ",
   "\"provenance_rejected\": true, \"request\": \x7b\x7d, \"success\": false, ",
   "\"this_hash\": ",
   "\"3c8317340c2dc56344e43a0d3c1d5bee1956ace58a5157c53ea1f028e4442713\", ",
   "\"timestamp\": 1700000000.0\x7d"].flatMap Text.ofString

def secondLine : Text :=
  ["\x7b\"blocked\": false, \"effector\": \"notify\", \"elapsed_ms\": 0.0, ",
   "\"error\": \"act intent already realized (replay)\", \"prev_hash\": ",
   "\"3c8317340c2dc56344e43a0d3c1d5bee1956ace58a5157c53ea1f028e4442713\", ",
   "\"provenance_rejected\": true, \"request\": \x7b\x7d, \"success\": false, ",
   "\"this_hash\": ",
   "\"bede8923808b810b6e9f13664d2807ef1b6b9d36f8299497719341d0d99a056a\", ",
   "\"timestamp\": 1700000001.5\x7d"].flatMap Text.ofString

theorem sample_texts :
    RecordTexts [firstLine, secondLine] := ⟨by decide +kernel, by decide +kernel, by decide +kernel⟩

theorem sample_digests : ∀ row ∈ [(Text.ofString genesisHash ++ firstBody, firstHash),
    (Text.ofString firstHash ++ secondBody, secondHash)], row.2.length = 64 := by decide

/-- The two records as the log holds them one behind the other. -/
def sampleEnv : AuditEnv :=
  AuditEnv.ofTexts [(firstEntry.core, firstBody), (secondEntry.core, secondBody)]
    [(withHashes firstEntry.core genesisHash firstHash, firstLine),
      (withHashes secondEntry.core firstHash secondHash, secondLine)]
    [(Text.ofString genesisHash ++ firstBody, firstHash),
      (Text.ofString firstHash ++ secondBody, secondHash)]
    (fun _ => "None") (by decide +kernel) sample_texts sample_digests

end Sample

section Walk

/-- A record that continues the chain is passed over. -/
theorem verifyLines_cons (hline : line.strip ≠ []) (hreads : Reads env line item)
    (hprev : item.prev = prev) (hthis : item.this = env.link prev item.content) :
    verifyLines env prev idx (line :: rest) = verifyLines env item.this (idx + 1) rest := by
  obtain ⟨record, hloads, hp, hcore, ht⟩ := hreads
  rw [verifyLines, if_neg hline, hloads]
  dsimp only
  rw [if_neg (by simp [hp, hprev]), linkHash, hcore, Option.map_some]
  dsimp only
  rw [if_neg (by simp [ht, hthis]), hthis]

/-- The walk over records that are linked goes on behind them. -/
theorem verifyLines_front (idx : ℕ) (rest : List Text)
    (hreads : List.Forall₂ (Reads env) (nonblank front) items)
    (hlinked : Linked env.link prev items) : verifyLines env prev idx (front ++ rest) =
      verifyLines env (last env.link prev (items.map Item.content)) (idx + items.length) rest := by
  induction front generalizing prev idx items with
  | nil =>
    cases hreads
    rfl
  | cons line front ih =>
    by_cases hline : line.strip = []
    · rw [nonblank, List.filter_cons_of_neg (by simp [hline])] at hreads
      rw [List.cons_append, verifyLines, if_pos hline]
      exact ih idx hreads hlinked
    · rw [nonblank, List.filter_cons_of_pos (by simp [hline])] at hreads
      cases hreads with
      | cons hread hreads =>
        obtain ⟨hprev, hthis, hlinked⟩ := hlinked
        rw [List.cons_append, verifyLines_cons hline hread hprev hthis, ih (idx + 1) hreads hlinked]
        rw [hthis, List.length_cons, Nat.add_right_comm, Nat.add_assoc]
        rfl

/-- A record that does not continue the chain ends the walk there. -/
theorem verifyLines_stops (hline : line.strip ≠ [])
    (hnext : ¬∃ item, Reads env line item ∧ item.prev = prev ∧
      item.this = env.link prev item.content) :
    verifyLines env prev idx (line :: rest) = none ∨
      ∃ detail, verifyLines env prev idx (line :: rest) = some ⟨false, some idx, detail⟩ := by
  rw [verifyLines, if_neg hline]
  cases hloads : env.loads line with
  | error e =>
    cases e with
    | jsonDecodeError => exact .inr ⟨_, rfl⟩
    | other => exact .inl rfl
  | ok v =>
    cases v with
    | obj record =>
      dsimp only
      by_cases hprev : Dict.get record "prev_hash" = .str prev
      swap
      · rw [if_pos hprev]
        exact .inr ⟨_, rfl⟩
      rw [if_neg (not_not.mpr hprev)]
      cases hcore : env.canonical (coreOf record) with
      | none =>
        rw [linkHash, hcore]
        exact .inl rfl
      | some body =>
        rw [linkHash, hcore, Option.map_some]
        dsimp only
        by_cases hthis : Dict.get record "this_hash" = .str (env.link prev body)
        swap
        · rw [if_pos hthis]
          exact .inr ⟨_, rfl⟩
        exact absurd ⟨⟨prev, body, env.link prev body⟩, ⟨record, hloads, hprev, hcore, hthis⟩,
          rfl, rfl⟩ hnext
    | _ => exact .inl rfl

/-- A walk that comes to its end passed linked records only. -/
theorem verifyLines_ok (h : verifyLines env prev idx lines = some ⟨true, none, ""⟩) :
    ∃ items, List.Forall₂ (Reads env) (nonblank lines) items ∧ Linked env.link prev items := by
  induction lines generalizing prev idx with
  | nil => exact ⟨[], .nil, trivial⟩
  | cons line rest ih =>
    by_cases hline : line.strip = []
    · rw [verifyLines, if_pos hline] at h
      rw [nonblank, List.filter_cons_of_neg (by simp [hline])]
      exact ih h
    rw [nonblank, List.filter_cons_of_pos (by simp [hline])]
    by_cases hnext : ∃ item, Reads env line item ∧ item.prev = prev ∧
      item.this = env.link prev item.content
    · obtain ⟨item, hread, hprev, hthis⟩ := hnext
      rw [verifyLines_cons hline hread hprev hthis] at h
      obtain ⟨items, hreads, hlinked⟩ := ih h
      exact ⟨item :: items, .cons hread hreads, hprev, hthis, hlinked⟩
    · rcases verifyLines_stops hline hnext with hstop | ⟨detail, hstop⟩
      · cases hstop.symm.trans h
      · cases hstop.symm.trans h

theorem verifyLines_iff : verifyLines env prev idx lines = some ⟨true, none, ""⟩ ↔
    ∃ items, List.Forall₂ (Reads env) (nonblank lines) items ∧ Linked env.link prev items := by
  constructor
  · exact verifyLines_ok
  · rintro ⟨items, hreads, hlinked⟩
    have hwalk := verifyLines_front idx [] hreads hlinked
    rwa [List.append_nil] at hwalk

/-- A record that is reported does not continue the records before it, which are linked. -/
theorem verifyLines_broken {i : ℕ} {detail : String}
    (h : verifyLines env prev idx lines = some ⟨false, some i, detail⟩) :
    ∃ front line rest items, lines = front ++ line :: rest ∧ line.strip ≠ [] ∧
      i = idx + items.length ∧ List.Forall₂ (Reads env) (nonblank front) items ∧
        Linked env.link prev items ∧
      ∀ item, Reads env line item → ¬ Linked env.link prev (items ++ [item]) := by
  induction lines generalizing prev idx with
  | nil => simp [verifyLines] at h
  | cons line rest ih =>
    by_cases hline : line.strip = []
    · rw [verifyLines, if_pos hline] at h
      obtain ⟨front, broken, more, items, rfl, hbroken, hi, hreads, hrest⟩ := ih h
      refine ⟨line :: front, broken, more, items, rfl, hbroken, hi, ?_, hrest⟩
      rwa [nonblank, List.filter_cons_of_neg (by simp [hline])]
    by_cases hnext : ∃ item, Reads env line item ∧ item.prev = prev ∧
      item.this = env.link prev item.content
    · obtain ⟨item, hread, hprev, hthis⟩ := hnext
      rw [verifyLines_cons hline hread hprev hthis] at h
      obtain ⟨front, broken, more, items, rfl, hbroken, hi, hreads, hlinked, hno⟩ := ih h
      refine ⟨line :: front, broken, more, item :: items, rfl, hbroken, ?_, ?_,
        ⟨hprev, hthis, hlinked⟩, ?_⟩
      · rw [hi, List.length_cons]
        omega
      · rw [nonblank, List.filter_cons_of_pos (by simp [hline])]
        exact .cons hread hreads
      · intro other hother hall
        exact hno other hother hall.2.2
    · refine ⟨[], line, rest, [], rfl, hline, ?_, .nil, trivial, ?_⟩
      · rcases verifyLines_stops hline hnext with hstop | ⟨_, hstop⟩
        · cases hstop.symm.trans h
        · cases hstop.symm.trans h
          rfl
      · rintro item hread ⟨hprev, hthis, -⟩
        exact hnext ⟨item, hread, hprev, hthis⟩

end Walk

section Written

/-- What lines are in a file when a newline ends each. -/
def recordText (lines : List Text) : Text := lines.flatMap (· ++ [Text.newline])

theorem brace_noSpace : CodePoint.openBrace.isSpace = false := by decide

theorem strip_brace (body : Text) : Text.strip (CodePoint.openBrace :: body) ≠ [] := by
  intro h
  rw [Text.strip, List.dropWhile_cons_of_neg (by simp [brace_noSpace]), List.reverse_eq_nil_iff,
    List.dropWhile_eq_nil_iff] at h
  have hspace := h CodePoint.openBrace (List.mem_reverse.mpr List.mem_cons_self)
  rw [brace_noSpace] at hspace
  cases hspace

theorem oneLine_of_printable {t : Text} (h : ∀ c ∈ t, 32 ≤ c.val) : t.OneLine := by
  intro c hc
  have hle := h c hc
  constructor <;> rintro rfl
  · exact absurd hle (by decide)
  · exact absurd hle (by decide)

theorem dumps_oneLine {d : Dict} (h : env.dumps d = some t) :
    t.OneLine := oneLine_of_printable (env.dumps_plain h).2

theorem dumps_strip {d : Dict} (h : env.dumps d = some t) : t.strip ≠ [] := by
  obtain ⟨⟨body, rfl⟩, -⟩ := env.dumps_plain h
  exact strip_brace body

theorem lines_recordText (h : ∀ line ∈ lines, line.OneLine) (rest : Text) :
    Text.lines (recordText lines ++ rest) = lines ++ Text.lines rest := by
  induction lines with
  | nil => rfl
  | cons line lines ih =>
    rw [recordText, List.flatMap_cons, List.append_assoc, List.append_assoc, List.singleton_append,
      Text.lines_cons (h line List.mem_cons_self)]
    exact congrArg _ (ih fun other hother => h other (List.mem_cons_of_mem _ hother))

theorem nonblank_self (h : ∀ line ∈ lines, line.strip ≠ []) : nonblank lines = lines :=
  List.filter_eq_self.mpr fun line hline => by simpa using h line hline

theorem core_plain (entry : AuditEntry) : ∀ kv ∈ entry.core, kv.1 ∉ hashFields := by
  simp [AuditEntry.core, hashFields]

theorem coreOf_withHashes (entry : AuditEntry) (prev this : String) :
    coreOf (withHashes entry.core prev this) = entry.core := by
  have hcore : coreOf entry.core = entry.core :=
    List.filter_eq_self.mpr fun kv hkv => by simpa using core_plain entry kv hkv
  rw [withHashes, coreOf, List.filter_append]
  change coreOf entry.core ++ _ = _
  rw [hcore]
  simp [hashFields]

theorem coreOf_sorted (d : Dict) : coreOf d.sorted = (coreOf d).sorted :=
  Dict.filter_sorted (· ∉ hashFields) d

/-- A record is read back as it was written. -/
theorem reads_line {entry : AuditEntry} {this : String}
    (hthis : linkHash env prev entry.core = some this)
    (hline : env.dumps (withHashes entry.core prev this) = some line) :
    ∃ body, env.canonical entry.core = some body ∧ this = env.link prev body ∧
      Reads env line ⟨prev, body, this⟩ := by
  obtain ⟨body, hbody, rfl⟩ := Option.map_eq_some_iff.mp hthis
  refine ⟨body, hbody, rfl, _, env.loads_dumps hline, ?_, ?_, ?_⟩
  · rw [Dict.get_sorted]
    rfl
  · rw [coreOf_sorted, coreOf_withHashes, env.canonical_sorted, hbody]
  · rw [Dict.get_sorted]
    rfl

/-- Entries in the lines that `append` writes of them, the last of which ends the chain. -/
inductive Recorded (env : AuditEnv) : List AuditEntry → List Text → String → Prop
  | nil : Recorded env [] [] genesisHash
  | snoc {entries : List AuditEntry} {lines : List Text} {prev this : String} {entry : AuditEntry}
      {line : Text} (h : Recorded env entries lines prev)
      (hthis : linkHash env prev entry.core = some this)
      (hline : env.dumps (withHashes entry.core prev this) = some line) :
      Recorded env (entries ++ [entry]) (lines ++ [line]) this

variable {entries : List AuditEntry} {log : Option Text}

theorem Recorded.dumped (h : Recorded env entries lines prev) :
    ∀ line ∈ lines, ∃ d, env.dumps d = some line := by
  induction h with
  | nil => simp
  | snoc h hthis hline ih =>
    intro line hmem
    rcases List.mem_append.mp hmem with hmem | hmem
    · exact ih line hmem
    · cases List.mem_singleton.mp hmem
      exact ⟨_, hline⟩

theorem Recorded.oneLine (h : Recorded env entries lines prev) : ∀ line ∈ lines, line.OneLine := by
  intro line hline
  obtain ⟨d, hd⟩ := h.dumped line hline
  exact dumps_oneLine hd

theorem Recorded.nonblank_lines (h : Recorded env entries lines prev) : nonblank lines = lines := by
  refine nonblank_self fun line hline => ?_
  obtain ⟨d, hd⟩ := h.dumped line hline
  exact dumps_strip hd

theorem Recorded.linked (h : Recorded env entries lines prev) :
    ∃ items, List.Forall₂ (Reads env) lines items ∧ Linked env.link genesisHash items ∧
      last env.link genesisHash (items.map Item.content) = prev := by
  induction h with
  | nil => exact ⟨[], .nil, trivial, rfl⟩
  | snoc h hthis hline ih =>
    obtain ⟨items, hreads, hlinked, hlast⟩ := ih
    obtain ⟨body, -, hlink, hread⟩ := reads_line hthis hline
    refine ⟨items ++ [⟨_, body, _⟩], List.rel_append hreads (.cons hread .nil),
      linked_append.mpr ⟨hlinked, ?_⟩, ?_⟩
    · rw [hlast]
      exact ⟨rfl, hlink, trivial⟩
    · rw [List.map_append, List.map_singleton, last_snoc, hlast]
      exact hlink.symm

/-- The walk of `verify` passes over what was recorded. -/
theorem Recorded.verifyLines_eq (h : Recorded env entries lines prev) (rest : List Text) :
    verifyLines env genesisHash 0 (lines ++ rest) = verifyLines env prev lines.length rest := by
  obtain ⟨items, hreads, hlinked, hlast⟩ := h.linked
  have hwalk := verifyLines_front 0 rest (h.nonblank_lines.symm ▸ hreads) hlinked
  rwa [hlast, Nat.zero_add, ← hreads.length_eq] at hwalk

/-- The log holds the entries, with this hash in its last record. -/
def Holds (env : AuditEnv) (log : Option Text) (entries : List AuditEntry) (prev : String) : Prop :=
  ∃ lines, Recorded env entries lines prev ∧ log.getD [] = recordText lines

theorem lines_recorded (h : Recorded env entries lines prev) :
    Text.lines (recordText lines) = lines := by
  have hlines := lines_recordText h.oneLine []
  rw [List.append_nil] at hlines
  exact hlines.trans (List.append_nil lines)

theorem recordText_eq_nil (h : recordText lines = []) : lines = [] := by
  cases lines with
  | nil => rfl
  | cons line lines => simp [recordText] at h

theorem lastHash_recorded (h : Recorded env entries lines prev) :
    lastHash env true (some (recordText lines)) = prev := by
  rw [lastHash, if_pos rfl, lines_recorded h, h.nonblank_lines]
  cases h with
  | nil => rfl
  | snoc h hthis hline =>
    rw [List.getLast?_concat, Option.map_some, Option.getD_some, thisHash, env.loads_dumps hline]
    dsimp only
    rw [Dict.lookup_sorted]
    rfl

theorem Recorded.genesis (h : Recorded env entries lines prev) (hnil : lines = []) :
    prev = genesisHash := by
  cases h with
  | nil => rfl
  | snoc h hthis hline => simp at hnil

theorem Holds.lastHash_eq (h : Holds env log entries prev) : lastHash env true log = prev := by
  obtain ⟨lines, hrecorded, hlog⟩ := h
  cases log with
  | none =>
    exact (hrecorded.genesis (recordText_eq_nil hlog.symm)).symm
  | some text =>
    obtain rfl : text = recordText lines := hlog
    exact lastHash_recorded hrecorded

end Written

section Run

variable {entries : List AuditEntry} {log : Option Text} {attempt : Attempt}
  {attempts : List Attempt}

/-- The log after these attempts, one after the other. -/
def run (env : AuditEnv) (log : Option Text) (attempts : List Attempt) : Option Text :=
    attempts.foldl (append env) log

/-- The substance of the records in the log. -/
def contents (env : AuditEnv) (log : Option Text) : List Dict :=
  ((nonblank (Text.lines (log.getD []))).filterMap (recordOf env)).map coreOf

def Attempt.isWhole (attempt : Attempt) : Bool := attempt.written matches .whole

/-- The log opened for reading, and its line was written in full or not at all. -/
def Attempt.Sound (attempt : Attempt) : Prop :=
  attempt.opens = true ∧ (attempt.written = .whole ∨ attempt.written = .part 0)

/-- What is appended has a text each time. -/
def Serialises (env : AuditEnv) (log : Option Text) (attempts : List Attempt) : Prop :=
  ∀ front attempt rest, attempts = front ++ attempt :: rest →
    (entryLine env (lastHash env attempt.opens (run env log front)) attempt.entry).isSome = true

/-- The entries of the lines that were written in full. -/
def keptEntries (attempts : List Attempt) : List AuditEntry :=
    (attempts.filter Attempt.isWhole).map Attempt.entry

theorem recordText_snoc : recordText (lines ++ [line]) =
    recordText lines ++ (line ++ [Text.newline]) := by
  simp [recordText]

theorem append_none (hline : entryLine env (lastHash env attempt.opens log) attempt.entry = none) :
    append env log attempt = log := by
  rw [append, hline]

theorem append_empty (hpart : attempt.written = .part 0) : append env log attempt = log := by
  rw [append, hpart]
  cases entryLine env (lastHash env attempt.opens log) attempt.entry <;> rfl

theorem append_line (hline : entryLine env (lastHash env attempt.opens log) attempt.entry =
      some line)
    {added : Text} (hadded : attempt.written.of (line ++ [Text.newline]) = added)
    (hne : added ≠ []) :
    append env log attempt = some (log.getD [] ++ added) := by
  rw [append, hline]
  dsimp only
  rw [hadded]
  cases added with
  | nil => exact absurd rfl hne
  | cons c added => rfl

/-- A sound attempt leaves the entries before it, with its own behind them if it was written. -/
theorem holds_append (h : Holds env log entries prev) (hsound : attempt.Sound)
    (hline : (entryLine env (lastHash env attempt.opens log) attempt.entry).isSome = true) :
    ∃ this, Holds env (append env log attempt) (entries ++ keptEntries [attempt]) this := by
  obtain ⟨hopens, hwhole | hpart⟩ := hsound
  · obtain ⟨line, hline⟩ := Option.isSome_iff_exists.mp hline
    have hkept : keptEntries [attempt] = [attempt.entry] := by
      simp [keptEntries, Attempt.isWhole, hwhole]
    have hadded : attempt.written.of (line ++ [Text.newline]) = line ++ [Text.newline] := by
      rw [hwhole]; rfl
    rw [append_line hline hadded (by simp), hkept]
    rw [hopens, h.lastHash_eq, entryLine] at hline
    obtain ⟨this, hthis, hdumps⟩ := Option.bind_eq_some_iff.mp hline
    obtain ⟨lines, hrecorded, hlog⟩ := h
    exact ⟨this, lines ++ [line],
      hrecorded.snoc hthis hdumps, by rw [Option.getD_some, hlog, recordText_snoc]⟩
  · have hkept : keptEntries [attempt] = [] := by simp [keptEntries, Attempt.isWhole, hpart]
    rw [append_empty hpart, hkept, List.append_nil]
    exact ⟨prev, h⟩

theorem keptEntries_cons :
    keptEntries (attempt :: attempts) = keptEntries [attempt] ++ keptEntries attempts := by
  rw [keptEntries, keptEntries, keptEntries, ← List.map_append, ← List.filter_append]
  rfl

theorem holds_run (h : Holds env log entries prev) (hsound : ∀ attempt ∈ attempts, attempt.Sound)
    (hlines : Serialises env log attempts) :
    ∃ this, Holds env (run env log attempts) (entries ++ keptEntries attempts) this := by
  induction attempts generalizing log entries prev with
  | nil =>
    have hkept : entries ++ keptEntries [] = entries := List.append_nil entries
    exact ⟨prev, hkept.symm ▸ h⟩
  | cons attempt attempts ih =>
    obtain ⟨this, hnext⟩ :=
      holds_append h (hsound attempt List.mem_cons_self) (hlines [] attempt attempts rfl)
    rw [keptEntries_cons, ← List.append_assoc]
    refine ih hnext (fun other hother => hsound other (List.mem_cons_of_mem _ hother)) ?_
    intro front other rest heq
    exact hlines (attempt :: front) other rest (congrArg _ heq)

theorem holds_absent : Holds env none [] genesisHash := ⟨[], .nil, rfl⟩

theorem verify_holds (h : Holds env log entries prev) :
    verify env none log = some ⟨true, none, ""⟩ := by
  obtain ⟨lines, hrecorded, hlog⟩ := h
  cases log with
  | none => rfl
  | some text =>
    obtain rfl : text = recordText lines := hlog
    have hwalk := hrecorded.verifyLines_eq []
    rw [List.append_nil] at hwalk
    rw [verify, lines_recorded hrecorded, hwalk]
    rfl

theorem recordOf_line {entry : AuditEntry} {this : String}
    (hline : env.dumps (withHashes entry.core prev this) = some line) :
    (recordOf env line).map coreOf = some entry.core.sorted := by
  rw [recordOf, env.loads_dumps hline]
  exact congrArg some (by rw [coreOf_sorted, coreOf_withHashes])

theorem contents_holds (h : Holds env log entries prev) :
    contents env log = entries.map fun entry => entry.core.sorted := by
  obtain ⟨lines, hrecorded, hlog⟩ := h
  rw [contents, hlog, lines_recorded hrecorded, hrecorded.nonblank_lines, List.map_filterMap]
  clear hlog
  induction hrecorded with
  | nil => rfl
  | snoc h hthis hline ih =>
    rw [List.filterMap_append, List.map_append, ih]
    simp [recordOf_line hline]

/-- In every run of attempts that read the log and write their lines in full or not at all, the log
verifies and holds the entries that were written, in order. -/
theorem verify_run (hsound : ∀ attempt ∈ attempts, attempt.Sound)
    (hlines : Serialises env none attempts) :
    verify env none (run env none attempts) = some ⟨true, none, ""⟩ ∧
      contents env (run env none attempts) = (keptEntries attempts).map fun entry =>
        entry.core.sorted := by
  obtain ⟨this, h⟩ := holds_run holds_absent hsound hlines
  exact ⟨verify_holds h, contents_holds h⟩

section Sample

theorem find_listed {α β γ : Type*} [DecidableEq γ] {g : α → γ} {rows : List (α × β)}
    {k : α} {v : β} (hkeys : (rows.map fun row => g row.1).Nodup) (hmem : (k, v) ∈ rows) :
    (rows.find? fun row => g row.1 = g k).map Prod.snd = some v := by
  cases hfound : rows.find? fun row => g row.1 = g k with
  | none => exact absurd (decide_eq_true rfl) (List.find?_eq_none.mp hfound _ hmem)
  | some row =>
    have hkey : g row.1 = g k := by simpa using List.find?_some hfound
    rw [List.inj_on_of_nodup_map hkeys (List.mem_of_find?_eq_some hfound) hmem hkey]
    rfl

theorem hexdigest_ofTexts {cores rows : List (Dict × Text)} {digests : List (Text × String)}
    {repr : Json → String}
    {hcores : (cores.map Prod.snd).Nodup} {hrows : RecordTexts (rows.map Prod.snd)}
    {hdigests : ∀ row ∈ digests, row.2.length = 64} {t : Text} {hash : String}
    (hkeys : (digests.map fun row => id row.1).Nodup) (hmem : (t, hash) ∈ digests) :
    (AuditEnv.ofTexts cores rows digests repr hcores hrows hdigests).hexdigest t = hash := by
  have hfound := find_listed hkeys hmem
  change Option.getD (Option.map Prod.snd
    (digests.find? fun row => id row.1 = id t)) genesisHash = hash
  rw [hfound, Option.getD_some]

theorem cores_nodup :
    ([(firstEntry.core, firstBody), (secondEntry.core, secondBody)].map fun row =>
      row.1.sorted).Nodup := by
  decide +kernel

theorem rows_nodup : ([(withHashes firstEntry.core genesisHash firstHash, firstLine),
    (withHashes secondEntry.core firstHash secondHash, secondLine)].map fun row =>
      id row.1).Nodup := by
  decide +kernel

theorem digests_nodup : ([(Text.ofString genesisHash ++ firstBody, firstHash),
    (Text.ofString firstHash ++ secondBody, secondHash)].map fun row => id row.1).Nodup := by
  decide +kernel

theorem first_body : sampleEnv.canonical firstEntry.core = some firstBody :=
  find_listed cores_nodup (.head _)

theorem second_body : sampleEnv.canonical secondEntry.core = some secondBody :=
  find_listed cores_nodup
    (.tail _ (.head _))

theorem first_link : sampleEnv.link genesisHash firstBody = firstHash := by
  rw [AuditEnv.link, sampleEnv]
  exact hexdigest_ofTexts digests_nodup (.head _)

theorem second_link : sampleEnv.link firstHash secondBody = secondHash := by
  rw [AuditEnv.link, sampleEnv]
  exact hexdigest_ofTexts digests_nodup (.tail _ (.head _))

theorem first_this : linkHash sampleEnv genesisHash firstEntry.core = some firstHash := by
  rw [linkHash, first_body, Option.map_some, first_link]

theorem second_this : linkHash sampleEnv firstHash secondEntry.core = some secondHash := by
  rw [linkHash, second_body, Option.map_some, second_link]

theorem first_dumps : sampleEnv.dumps (withHashes firstEntry.core genesisHash firstHash) =
    some firstLine :=
  find_listed rows_nodup (.head _)

theorem second_dumps : sampleEnv.dumps (withHashes secondEntry.core firstHash secondHash) =
    some secondLine :=
  find_listed rows_nodup (.tail _ (.head _))

theorem recorded_first :
    Recorded sampleEnv [firstEntry] [firstLine] firstHash := .snoc .nil first_this first_dumps

theorem recorded_both : Recorded sampleEnv [firstEntry, secondEntry] [firstLine,
      secondLine] secondHash :=
  .snoc recorded_first second_this second_dumps

theorem first_line : entryLine sampleEnv genesisHash firstEntry = some firstLine := by
  rw [entryLine, first_this, Option.bind_some, first_dumps]

theorem second_line : entryLine sampleEnv firstHash secondEntry = some secondLine := by
  rw [entryLine, second_this, Option.bind_some, second_dumps]

/-- Two refusals, of which the first was tried before the disk took it. -/
def sampleAttempts : List Attempt :=
  [⟨firstEntry, true, .part 0⟩, ⟨firstEntry, true, .whole⟩, ⟨secondEntry, true, .whole⟩]

theorem serialises_sample : Serialises sampleEnv none sampleAttempts := by
  have hlast := lastHash_recorded recorded_first
  have hsecond : (entryLine sampleEnv (lastHash sampleEnv true (some (recordText [firstLine])))
      secondEntry).isSome = true := by
    rw [hlast, second_line]
    rfl
  have hfirst : (entryLine sampleEnv genesisHash firstEntry).isSome = true := by
    rw [first_line]
    rfl
  have hempty : append sampleEnv none ⟨firstEntry, true, .part 0⟩ = none := append_empty rfl
  have hlog : run sampleEnv none [⟨firstEntry, true, .part 0⟩, ⟨firstEntry, true, .whole⟩] =
      some (recordText [firstLine]) := by
    let whole : Attempt := ⟨firstEntry, true, .whole⟩
    have hline : entryLine sampleEnv (lastHash sampleEnv whole.opens none) whole.entry =
      some firstLine :=
        first_line
    have hof : whole.written.of (firstLine ++ [Text.newline]) = firstLine ++ [Text.newline] := rfl
    have hwhole := append_line hline hof (by simp)
    rw [run, List.foldl_cons, List.foldl_cons, List.foldl_nil, hempty, hwhole, recordText,
      List.flatMap_singleton, Option.getD_none, List.nil_append]
  intro front attempt rest h
  rcases front with _ | ⟨a, _ | ⟨b, _ | ⟨c, front⟩⟩⟩
  · cases h
    exact hfirst
  · cases h
    rw [run, List.foldl_cons, List.foldl_nil, hempty]
    exact hfirst
  · cases h
    rw [hlog]
    exact hsecond
  · simp [sampleAttempts] at h

theorem verify_run_sample :
    verify sampleEnv none (run sampleEnv none sampleAttempts) = some ⟨true, none, ""⟩ ∧
      contents sampleEnv (run sampleEnv none sampleAttempts) =
        [firstEntry.core.sorted, secondEntry.core.sorted] :=
  verify_run (by simp [sampleAttempts, Attempt.Sound]) serialises_sample

end Sample

end Run

section Torn

variable {entries : List AuditEntry} {log : Option Text} {attempt : Attempt}
  {attempts : List Attempt} {cut p : Text}

/-- The beginning of the text of a record. -/
def Begins (env : AuditEnv) (p : Text) : Prop :=
  p ≠ [] ∧ ∃ d t, Worded d ∧ env.dumps d = some t ∧ p <+: t

/-- Behind whole lines stand the beginning of one more, what was written behind it in pieces, and
perhaps a newline and more. -/
def Torn (env : AuditEnv) (lines : List Text) (t cut : Text) (log : Option Text) : Prop :=
  ∃ pieces tail, log = some (recordText lines ++ (cut ++ pieces.flatten) ++ tail) ∧
    (∀ p ∈ pieces, Begins env p) ∧
    (tail = [] ∨ (∃ more, tail = Text.newline :: more) ∧ (cut ≠ t ∨ pieces ≠ []))

/-- The keys of a record in order. -/
theorem sorted_entry (entry : AuditEntry) (prev this : String) :
    (withHashes entry.core prev this).sorted = [("blocked", .bool entry.blocked),
      ("effector", .str entry.effector), ("elapsed_ms", .float entry.elapsedMs),
     ("error", ((entry.error.map Json.str).getD .null).sorted), ("prev_hash", .str prev),
     ("provenance_rejected", .bool entry.provenanceRejected),
       ("request", (Json.obj (sanitize entry.requestSummary)).sorted),
     ("success", .bool entry.success), ("this_hash", .str this),
       ("timestamp", .float entry.timestamp)] := by
  simp [Dict.sorted, withHashes, AuditEntry.core, Json.sortedEntries, Json.sorted]

theorem worded_entry (entry : AuditEntry) (prev this : String) :
    Worded (withHashes entry.core prev this) :=
  ⟨'b', "locked".toList, _, _, sorted_entry entry prev this, rfl⟩

theorem entryLine_worded {entry : AuditEntry} (h : entryLine env prev entry = some line) :
    ∃ d, Worded d ∧ env.dumps d = some line := by
  obtain ⟨this, -, hdumps⟩ := Option.bind_eq_some_iff.mp h
  exact ⟨_, worded_entry entry prev this, hdumps⟩

theorem of_init (written : Written) (l : Text) : written.of l <+: l := by
  cases written with
  | whole => exact List.prefix_rfl
  | part n => exact List.take_prefix n l

theorem append_cases (env : AuditEnv) (log : Option Text) (attempt : Attempt) :
    append env log attempt = log ∨ ∃ line added, (∃ d, Worded d ∧ env.dumps d = some line) ∧
      added ≠ [] ∧ added <+: line ++ [Text.newline] ∧
        append env log attempt = some (log.getD [] ++ added) := by
  cases hline : entryLine env (lastHash env attempt.opens log) attempt.entry with
  | none => exact .inl (append_none hline)
  | some line =>
    by_cases hadded : attempt.written.of (line ++ [Text.newline]) = []
    · refine .inl ?_
      rw [append, hline]
      dsimp only
      rw [hadded]
    · exact .inr ⟨line, _, entryLine_worded hline, hadded, of_init _ _,
        append_line hline rfl hadded⟩

/-- A torn line stays where it is, with what is written behind it. -/
theorem torn_append (h : Torn env lines t cut log) (attempt : Attempt) :
    Torn env lines t cut (append env log attempt) := by
  rcases append_cases env log attempt with hsame | ⟨line, added, hline, hne, hadded, happend⟩
  · rwa [hsame]
  obtain ⟨pieces, tail, hlog, hpieces, htail⟩ := h
  rw [happend, hlog, Option.getD_some]
  rcases htail with rfl | ⟨⟨more, rfl⟩, htorn⟩
  · rw [List.append_nil]
    obtain ⟨d, hd, hdumps⟩ := hline
    have hmore : ∀ piece, Begins env piece → ∀ p ∈ pieces ++ [piece], Begins env p := by
      intro piece hpiece p hp
      rcases List.mem_append.mp hp with hp | hp
      · exact hpieces p hp
      · exact List.mem_singleton.mp hp ▸ hpiece
    rcases List.prefix_concat_iff.mp hadded with rfl | hadded
    · have hlast : Begins env line := by
        refine ⟨?_, d, line, hd, hdumps, List.prefix_rfl⟩
        rintro rfl
        exact dumps_strip hdumps rfl
      exact ⟨pieces ++ [line], [Text.newline], by simp, hmore line hlast,
        .inr ⟨⟨[], rfl⟩, .inr (by simp)⟩⟩
    · exact ⟨pieces ++ [added], [], by simp,
        hmore added ⟨hne, d, line, hd, hdumps, hadded⟩, .inl rfl⟩
  · exact ⟨pieces, Text.newline :: (more ++ added), by simp, hpieces,
      .inr ⟨⟨more ++ added, rfl⟩, htorn⟩⟩

theorem torn_run (h : Torn env lines t cut log) (attempts : List Attempt) :
    Torn env lines t cut (run env log attempts) := by
  induction attempts generalizing log with
  | nil => exact h
  | cons attempt attempts ih => exact ih (torn_append h attempt)

theorem begins_brace (h : Begins env p) :
    (∃ body, p = CodePoint.openBrace :: body) ∧ ∀ c ∈ p, 32 ≤ c.val := by
  obtain ⟨hne, d, t, -, hdumps, hinit⟩ := h
  obtain ⟨⟨body, rfl⟩, hprintable⟩ := env.dumps_plain hdumps
  refine ⟨?_, fun c hc => hprintable c (hinit.subset hc)⟩
  cases p with
  | nil => exact absurd rfl hne
  | cons c p => exact ⟨p, by rw [(List.cons_prefix_cons.mp hinit).1]⟩

theorem lines_oneLine {t : Text} (h : t.OneLine) (hne : t ≠ []) : t.lines = [t] := by
  have huniversal := Text.universal_append h []
  rw [List.append_nil] at huniversal
  rw [Text.lines, huniversal, Text.universal, List.append_nil]
  clear huniversal
  induction t with
  | nil => exact absurd rfl hne
  | cons c t ih =>
    rw [Text.splitLines, if_neg (h c List.mem_cons_self).1]
    cases t with
    | nil => rfl
    | cons d t => rw [ih (fun e he => h e (List.mem_cons_of_mem _ he)) (List.cons_ne_nil _ _)]

/-- `verify` stops at a torn line, where the parser refuses it. -/
theorem verify_torn (hrecorded : Recorded env entries lines prev) (hcut : Begins env cut)
    (hbegins : ∃ d, Worded d ∧ env.dumps d = some t ∧ cut <+: t) (h : Torn env lines t cut log)
    (hspoiled : cut ≠ t ∨ log ≠ some (recordText lines ++ cut)) :
    verify env none log = some ⟨false, some lines.length, "record is not valid JSON"⟩ ∨
      verify env none log = none := by
  obtain ⟨pieces, tail, rfl, hpieces, htail⟩ := h
  have htorn : cut ≠ t ∨ pieces ≠ [] := by
    rcases hspoiled with hcut | hlog
    · exact .inl hcut
    rcases htail with rfl | ⟨-, htorn⟩
    · refine .inr ?_
      rintro rfl
      exact hlog (by simp)
    · exact htorn
  have hprintable : ∀ c ∈ cut ++ pieces.flatten, 32 ≤ c.val := by
    intro c hc
    rcases List.mem_append.mp hc with hc | hc
    · exact (begins_brace hcut).2 c hc
    · obtain ⟨p, hp, hcp⟩ := List.mem_flatten.mp hc
      exact (begins_brace (hpieces p hp)).2 c hcp
  obtain ⟨⟨body, rfl⟩, -⟩ := begins_brace hcut
  have hstrip : Text.strip (CodePoint.openBrace :: body ++ pieces.flatten) ≠ [] := strip_brace _
  have hone := oneLine_of_printable hprintable
  obtain ⟨d, hd, hdumps, hinit⟩ := hbegins
  obtain ⟨e, hloads⟩ := env.loads_pieces hd hdumps hinit (List.cons_ne_nil _ _) hpieces htorn
  have hlines : ∃ more,
      Text.lines (recordText lines ++ (CodePoint.openBrace :: body ++ pieces.flatten) ++ tail) =
      lines ++ (CodePoint.openBrace :: body ++ pieces.flatten) :: more := by
    rw [List.append_assoc, lines_recordText hrecorded.oneLine]
    rcases htail with rfl | ⟨⟨more, rfl⟩, -⟩
    · exact ⟨[], by rw [List.append_nil, lines_oneLine hone (List.cons_ne_nil _ _)]⟩
    · exact ⟨Text.lines more, by rw [Text.lines_cons hone]⟩
  obtain ⟨more, hlines⟩ := hlines
  rw [verify, hlines, hrecorded.verifyLines_eq, verifyLines, if_neg hstrip, hloads]
  cases e with
  | jsonDecodeError => exact .inl rfl
  | other => exact .inr rfl

theorem Recorded.length_eq (h : Recorded env entries lines prev) :
    lines.length = entries.length := by
  induction h with
  | nil => rfl
  | snoc h hthis hline ih => rw [List.length_append, List.length_append, ih]; rfl

/-- A line that was cut short is reported at its place in every run that goes on: where its record
is not whole, and where only its newline is missing, once anything is written behind it. -/
theorem verify_cut (front : List Attempt) (attempt : Attempt) (rest : List Attempt) {n : ℕ}
    (hsound : ∀ attempt ∈ front, attempt.Sound)
    (hlines : Serialises env none front)
    (hline : entryLine env (lastHash env attempt.opens (run env none front)) attempt.entry = some t)
    (hcut : attempt.written = .part n) (hpos : 0 < n) (hle : n ≤ t.length)
    (hspoiled : n < t.length ∨ run env none (front ++ attempt :: rest) ≠
      run env none (front ++ [attempt])) :
    verify env none (run env none (front ++ attempt :: rest)) =
        some ⟨false, some (keptEntries front).length, "record is not valid JSON"⟩ ∨
      verify env none (run env none (front ++ attempt :: rest)) = none := by
  obtain ⟨prev, lines, hrecorded, hlog⟩ := holds_run holds_absent hsound hlines
  have hadded : attempt.written.of (t ++ [Text.newline]) = t.take n := by
    rw [hcut, Written.of, List.take_append_of_le_length hle]
  obtain ⟨d, hd, hdumps⟩ := entryLine_worded hline
  have hne : t.take n ≠ [] := by
    have hlength : (t.take n).length = n := by rw [List.length_take, Nat.min_eq_left hle]
    rw [← List.length_pos_iff, hlength]
    exact hpos
  have hfirst := append_line hline hadded hne
  rw [hlog] at hfirst
  have hrun : ∀ rest, run env none (front ++ attempt :: rest) =
      run env (some (recordText lines ++ t.take n)) rest := by
    intro rest
    rw [run, List.foldl_append, List.foldl_cons, ← run, ← run, hfirst]
  have htorn : Torn env lines t (t.take n) (some (recordText lines ++ t.take n)) :=
    ⟨[], [], by simp, by simp, .inl rfl⟩
  rw [hrun, hrun] at hspoiled
  rw [hrun, ← List.nil_append (keptEntries front), ← hrecorded.length_eq]
  refine verify_torn hrecorded ⟨hne, d, t, hd, hdumps, List.take_prefix n t⟩ ⟨d, hd, hdumps,
    List.take_prefix n t⟩
    (torn_run htorn rest) (hspoiled.imp (fun hlt heq => ?_) id)
  have hlength := congrArg List.length heq
  rw [List.length_take, Nat.min_eq_left hle] at hlength
  omega

/-- A refusal of which five characters were written, and again in full. -/
theorem verify_cut_sample :
    verify sampleEnv none
        (run sampleEnv none [⟨firstEntry, true, .part 5⟩, ⟨firstEntry, true, .whole⟩]) =
      some ⟨false, some 0, "record is not valid JSON"⟩ ∨
    verify sampleEnv none
        (run sampleEnv none [⟨firstEntry, true, .part 5⟩, ⟨firstEntry, true, .whole⟩]) = none := by
  have hline : entryLine sampleEnv (lastHash sampleEnv true (run sampleEnv none [])) firstEntry =
      some firstLine := first_line
  have hlength : 5 < firstLine.length :=
      (by decide : 5 < 40).trans_le (sample_texts.2.1 firstLine List.mem_cons_self)
  exact verify_cut [] ⟨firstEntry, true, .part 5⟩ [⟨firstEntry, true, .whole⟩] (by simp)
    (by simp [Serialises]) hline rfl (by decide) hlength.le (.inl hlength)

end Torn

end Kaine.Effectors
