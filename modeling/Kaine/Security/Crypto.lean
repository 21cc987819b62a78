import Kaine.Lib.Base64

/-! The envelope around the bytes of state at rest. What is written under a key is read back, and
what was not is refused. -/
namespace Kaine.Security
open Py

def magic : Bytes := (Text.ofString "KAINEgcm1:").map fun c => Utf8.byte c.val

def nonceBytes : ℕ := 12

/-- What `os.urandom` draws for an encryption. -/
abbrev Nonce := {nonce : Bytes // nonce.length = nonceBytes}

/-- The cipher of one key: `AESGCM.encrypt`, and `AESGCM.decrypt` with none where it raises. -/
structure Aead where
  encrypt : Bytes → Bytes → Bytes
  decrypt : Bytes → Bytes → Option Bytes

/-- Genuine pairs open, nothing else does, and a ciphertext carries its tag. -/
structure Aead.Ideal (aead : Aead) : Prop where
  opens : ∀ (nonce : Nonce) plaintext,
    aead.decrypt nonce.1 (aead.encrypt nonce.1 plaintext) = some plaintext
  refuses : ∀ nonce ciphertext plaintext, aead.decrypt nonce ciphertext = some plaintext →
    ciphertext = aead.encrypt nonce plaintext
  tagged : ∀ nonce plaintext, aead.encrypt nonce plaintext ≠ []

/-- What reading or writing state raises. -/
inductive Failure
  | notBase64
  | missingHeader
  | notConfigured
  | invalidTag
  | unencodable
  | undecodable
deriving DecidableEq

def isEncrypted (blob : Bytes) : Bool := blob.take magic.length = magic

/-- An encryptor with the cipher that its constructor built, which it does when enabled. -/
structure StateEncryptor where
  aead : Option Aead

namespace StateEncryptor

def enabled (encryptor : StateEncryptor) : Bool := encryptor.aead.isSome

def disabled : StateEncryptor := ⟨none⟩

def keyed (aead : Aead) : StateEncryptor := ⟨some aead⟩

def encrypt (encryptor : StateEncryptor) (nonce : Nonce) (plaintext : Bytes) : Bytes :=
  match encryptor.aead with
  | none => plaintext
  | some aead =>
    let ciphertext := aead.encrypt nonce.1 plaintext
    let framed := magic ++ nonce.1 ++ ciphertext
    Base64.encode framed

def decrypt (lax : Bool) (encryptor : StateEncryptor) (blob : Bytes) : Except Failure Bytes :=
  match Base64.decode lax blob with
  | none => .error .notBase64
  | some framed =>
    if isEncrypted framed then
      let nonce := (framed.drop magic.length).take nonceBytes
      let ciphertext := framed.drop (magic.length + nonceBytes)
      match encryptor.aead with
      | none => .error .notConfigured
      | some aead =>
        match aead.decrypt nonce ciphertext with
        | none => .error .invalidTag
        | some plaintext => .ok plaintext
    else .error .missingHeader

def maybeDecrypt (lax : Bool) (encryptor : StateEncryptor) (blob : Bytes) : Except Failure Bytes :=
  match Base64.decode lax blob with
  | none => .ok blob
  | some framed => if isEncrypted framed then decrypt lax encryptor blob else .ok blob

def encryptText (encryptor : StateEncryptor) (nonce : Nonce) (text : Text) : Except Failure Text :=
  if encryptor.enabled then
    match Utf8.encode text with
    | none => .error .unencodable
    | some bs =>
      match Ascii.decode (encryptor.encrypt nonce bs) with
      | none => .error .undecodable
      | some written => .ok written
  else .ok text

def decryptText (lax : Bool) (encryptor : StateEncryptor) (text : Text) : Except Failure Text :=
  if encryptor.enabled then
    match Utf8.encode text with
    | none => .error .unencodable
    | some bs =>
      match maybeDecrypt lax encryptor bs with
      | .error failure => .error failure
      | .ok plaintext =>
        match Utf8.decode plaintext with
        | none => .error .undecodable
        | some text => .ok text
  else .ok text

end StateEncryptor

variable {aead : Aead} {lax : Bool} {nonce : Nonce} {x blob framed plaintext : Bytes} {t : Text}
  {encryptor : StateEncryptor}

/-- The bytes inside a genuine envelope. -/
def Aead.frame (aead : Aead) (nonce : Nonce) (plaintext : Bytes) : Bytes :=
  magic ++ nonce.1 ++ aead.encrypt nonce.1 plaintext

/-- Bytes that decode to the envelope's header. -/
def LooksEncrypted (lax : Bool) (blob : Bytes) : Prop :=
  ∃ framed, Base64.decode lax blob = some framed ∧ isEncrypted framed = true

theorem isEncrypted_iff : isEncrypted framed = true ↔ ∃ rest, framed = magic ++ rest := by
  constructor
  · intro h
    have htake : framed.take magic.length = magic := of_decide_eq_true h
    have hsplit := List.take_append_drop magic.length framed
    rw [htake] at hsplit
    exact ⟨framed.drop magic.length, hsplit.symm⟩
  · rintro ⟨rest, rfl⟩
    exact decide_eq_true (List.take_left ..)

theorem isEncrypted_frame : isEncrypted (aead.frame nonce plaintext) = true :=
  isEncrypted_iff.2 ⟨nonce.1 ++ aead.encrypt nonce.1 plaintext, List.append_assoc ..⟩

namespace StateEncryptor

theorem encrypt_keyed : (keyed aead).encrypt nonce x = Base64.encode (aead.frame nonce x) := rfl

theorem maybeDecrypt_plain (h : ¬ LooksEncrypted lax x) : maybeDecrypt lax encryptor x = .ok x := by
  unfold maybeDecrypt
  cases hdecode : Base64.decode lax x with
  | none => rfl
  | some framed =>
    have hheader : ¬ isEncrypted framed = true := fun hmagic => h ⟨framed, hdecode, hmagic⟩
    exact if_neg hheader

theorem maybeDecrypt_envelope (h : LooksEncrypted lax x) :
    maybeDecrypt lax encryptor x = decrypt lax encryptor x := by
  obtain ⟨framed, hdecode, hmagic⟩ := h
  simp only [maybeDecrypt, hdecode, hmagic, if_true]

theorem decrypt_disabled (h : LooksEncrypted lax x) :
    decrypt lax disabled x = .error .notConfigured := by
  obtain ⟨framed, hdecode, hmagic⟩ := h
  simp only [decrypt, disabled, hdecode, hmagic, if_true]

/-- The cipher opens the two parts of a frame, wherever they come from. -/
theorem decrypt_keyed (hdecode : Base64.decode lax blob = some framed)
    (hmagic : isEncrypted framed = true) :
    decrypt lax (keyed aead) blob =
      match aead.decrypt ((framed.drop magic.length).take nonceBytes)
          (framed.drop (magic.length + nonceBytes)) with
      | none => .error .invalidTag
      | some plaintext => .ok plaintext := by
  unfold decrypt
  rw [hdecode]
  exact if_pos hmagic

/-- Only a genuine frame opens. -/
theorem decrypt_ok_iff (ideal : aead.Ideal) (hdecode : Base64.decode lax blob = some framed)
    (hmagic : isEncrypted framed = true) :
    decrypt lax (keyed aead) blob = .ok plaintext ↔
      ∃ nonce, framed = aead.frame nonce plaintext := by
  rw [decrypt_keyed hdecode hmagic]
  constructor
  · intro h
    split at h
    · cases h
    · rename_i opened hopen
      cases h
      obtain ⟨rest, rfl⟩ := isEncrypted_iff.1 hmagic
      rw [← List.drop_drop, List.drop_left] at hopen
      have hcipher := ideal.refuses _ _ _ hopen
      have hlong : nonceBytes < rest.length := by
        refine lt_of_not_ge fun hshort => ?_
        rw [List.drop_eq_nil_of_le hshort] at hcipher
        exact ideal.tagged _ _ hcipher.symm
      have hlength : (rest.take nonceBytes).length = nonceBytes :=
        List.length_take_of_le (le_of_lt hlong)
      refine ⟨⟨rest.take nonceBytes, hlength⟩, ?_⟩
      rw [Aead.frame, ← hcipher, List.append_assoc, List.take_append_drop]
  · rintro ⟨nonce, rfl⟩
    have hnonce : ((aead.frame nonce plaintext).drop magic.length).take nonceBytes = nonce.1 := by
      rw [Aead.frame, List.append_assoc, List.drop_left]
      exact List.take_left' nonce.2
    have hcipher : (aead.frame nonce plaintext).drop (magic.length + nonceBytes) =
        aead.encrypt nonce.1 plaintext := by
      rw [Aead.frame, List.append_assoc, ← List.drop_drop, List.drop_left]
      exact List.drop_left' nonce.2
    rw [hnonce, hcipher, ideal.opens]

theorem maybeDecrypt_encrypt (lax : Bool) (ideal : aead.Ideal) (nonce : Nonce) (x : Bytes) :
    maybeDecrypt lax (keyed aead) ((keyed aead).encrypt nonce x) = .ok x := by
  have hdecode := Base64.decode_encode lax (aead.frame nonce x)
  rw [encrypt_keyed, maybeDecrypt_envelope ⟨_, hdecode, isEncrypted_frame⟩,
    decrypt_ok_iff ideal hdecode isEncrypted_frame]
  exact ⟨nonce, rfl⟩

theorem decode_encrypt_keyed (aead : Aead) (nonce : Nonce) (x : Bytes) : ∃ written,
    Ascii.decode ((keyed aead).encrypt nonce x) = some written ∧
      Utf8.encode written = some ((keyed aead).encrypt nonce x) := by
  have hdecode : Ascii.decode ((keyed aead).encrypt nonce x) =
      some (((keyed aead).encrypt nonce x).map Ascii.ofByte) :=
    if_pos (Base64.encode_ascii _)
  exact ⟨_, hdecode, Ascii.encode_decode hdecode⟩

theorem decryptText_encryptText (lax : Bool) (ideal : aead.Ideal) (nonce : Nonce)
    (h : Utf8.encode t = some x) :
    ∃ written, (keyed aead).encryptText nonce t = .ok written ∧
      decryptText lax (keyed aead) written = .ok t := by
  obtain ⟨written, hwritten, hback⟩ := decode_encrypt_keyed aead nonce x
  refine ⟨written, ?_, ?_⟩
  · have henabled : (keyed aead).enabled = true := rfl
    simp only [encryptText, henabled, h, hwritten, if_true]
  · have hread := maybeDecrypt_encrypt lax ideal nonce x
    have henabled : (keyed aead).enabled = true := rfl
    simp only [decryptText, henabled, if_true, hback, hread, Utf8.decode_encode h]

end StateEncryptor

open StateEncryptor

/-- What an encryptor writes it reads back, but for what only looks encrypted, and only genuine
frames open. -/
theorem state_round_trip (lax : Bool) (ideal : aead.Ideal) :
    (∀ nonce x, maybeDecrypt lax (keyed aead) ((keyed aead).encrypt nonce x) = .ok x) ∧
    (∀ nonce t, (Utf8.encode t).isSome →
      ((keyed aead).encryptText nonce t).bind (decryptText lax (keyed aead)) = .ok t) ∧
    (∀ nonce t, Utf8.encode t = none →
      (keyed aead).encryptText nonce t = .error .unencodable) ∧
    (∀ nonce x, ¬ LooksEncrypted lax x →
      maybeDecrypt lax disabled (disabled.encrypt nonce x) = .ok x) ∧
    (∀ nonce x, LooksEncrypted lax x →
      maybeDecrypt lax disabled (disabled.encrypt nonce x) = .error .notConfigured) ∧
    (∀ nonce t, (disabled.encryptText nonce t).bind (decryptText lax disabled) = .ok t) ∧
    (∀ blob framed, Base64.decode lax blob = some framed → isEncrypted framed = true →
      (∀ nonce plaintext, framed ≠ aead.frame nonce plaintext) →
        ∃ failure, decrypt lax (keyed aead) blob = .error failure) ∧
    (∀ x, ¬ LooksEncrypted lax x → maybeDecrypt lax (keyed aead) x = .ok x) := by
  refine ⟨maybeDecrypt_encrypt lax ideal, ?_, ?_, fun _ _ h => maybeDecrypt_plain h, ?_,
    fun _ _ => rfl, ?_, fun _ h => maybeDecrypt_plain h⟩
  · intro nonce t h
    obtain ⟨bs, hbs⟩ := Option.isSome_iff_exists.1 h
    obtain ⟨written, hwritten, hread⟩ := decryptText_encryptText lax ideal nonce hbs
    rw [hwritten]
    exact hread
  · intro nonce t h
    have henabled : (keyed aead).enabled = true := rfl
    simp only [encryptText, henabled, h, if_true]
  · intro nonce x h
    exact (maybeDecrypt_envelope h).trans (decrypt_disabled h)
  · intro blob framed hdecode hmagic hforged
    cases h : decrypt lax (keyed aead) blob with
    | error failure => exact ⟨failure, rfl⟩
    | ok plaintext =>
      obtain ⟨nonce, hframe⟩ := (decrypt_ok_iff ideal hdecode hmagic).1 h
      exact absurd hframe (hforged nonce plaintext)

/-- A cipher that hides nothing, and opens what begins with its nonce. -/
def openAead : Aead where
  encrypt nonce plaintext := Utf8.byte 0 :: nonce ++ plaintext
  decrypt nonce ciphertext :=
    if ciphertext.take (nonce.length + 1) = Utf8.byte 0 :: nonce
      then some (ciphertext.drop (nonce.length + 1))
    else none

theorem openAead_ideal : openAead.Ideal where
  opens nonce plaintext := by
    have htake : (Utf8.byte 0 :: nonce.1 ++ plaintext).take (nonce.1.length + 1) =
      Utf8.byte 0 :: nonce.1 :=
      List.take_left' rfl
    have hdrop : (Utf8.byte 0 :: nonce.1 ++ plaintext).drop (nonce.1.length + 1) = plaintext :=
      List.drop_left' rfl
    simp only [openAead, htake, hdrop, if_true]
  refuses nonce ciphertext plaintext h := by
    simp only [openAead] at h
    split_ifs at h with hnonce
    have hsplit := List.take_append_drop (nonce.length + 1) ciphertext
    rw [hnonce, Option.some.inj h] at hsplit
    exact hsplit.symm
  tagged _ _ := List.cons_ne_nil _ _

def zeroNonce : Nonce := ⟨List.replicate nonceBytes (Utf8.byte 0), List.length_replicate ..⟩

theorem state_round_trip_open :
    maybeDecrypt false (keyed openAead) ((keyed openAead).encrypt zeroNonce [1, 2]) = .ok [1, 2] :=
  (state_round_trip false openAead_ideal).1 zeroNonce [1, 2]

/-- Plaintext that looks encrypted, text that has no bytes, and a blob that is not the envelope but
decodes to the same frame. -/
theorem lookalike_not_read_back :
    maybeDecrypt false disabled (disabled.encrypt zeroNonce (Base64.encode magic)) =
      .error .notConfigured ∧
    maybeDecrypt false (keyed openAead) (Base64.encode magic) = .error .invalidTag ∧
    (keyed openAead).encryptText zeroNonce [0xD800] = .error .unencodable ∧
    ∃ blob, blob ≠ (keyed openAead).encrypt zeroNonce [] ∧
      decrypt false (keyed openAead) blob = .ok [] := by
  refine ⟨by decide, by decide, by decide, ?_⟩
  exact ⟨((keyed openAead).encrypt zeroNonce []).take 46 ++ [Base64.sextet 1, Base64.pad],
    by decide, by decide⟩

end Kaine.Security
