-- SUMMARY: The root key from the text of a variable: which texts are read, and which encodings of a key they are.
import EdgeReplica.Auth.Tokens
import EdgeReplica.Lib.Base64

/-!
# Keyring

The key is read by one decoder, for the standard alphabet with padding, whatever other
forms the key could be written in.
-/

namespace EdgeReplica

open Base64 (Alphabet StandardEngine encode sextets)

inductive KeyringError where
  | invalidLength (length : Nat)
  | invalidBase64 (message : String)
deriving DecidableEq

def KeyringError.toString : KeyringError → String
  | .invalidLength length => s!"invalid key length: {length} (need 32)"
  | .invalidBase64 message => s!"invalid key base64: {message}"

namespace Keyring

variable [StandardEngine]

def fromBase64 (s : String) : Except KeyringError Keyring := do
  let bytes ← (StandardEngine.decode (Text.trim s)).mapError .invalidBase64
  if h : bytes.length = 32 then
    return { root := ⟨bytes, h⟩ }
  else
    throw (.invalidLength bytes.length)

/-- The keyring of a variable. Where there is nothing in it the key is one for development. -/
def loadKeyring (devDefault : Keyring) (var : Option String) : Except String Keyring :=
  let raw := var.getD ""
  if Text.trim raw = "" then
    .ok devDefault
  else
    (fromBase64 raw).mapError fun e => s!"invalid SESSION_KEY: {e.toString}"

/-- The texts read are those of the standard form of the key, with white space around them. -/
theorem fromBase64_eq_ok {s : String} {key : MacaroonKey} :
    fromBase64 s = .ok ⟨key⟩ ↔ Text.trim s = encode .standard true key.bytes := by
  unfold fromBase64
  rw [Effect.bind_eq_ok]
  constructor
  · rintro ⟨bytes, hbytes, hkeyring⟩
    rw [Effect.mapError_eq_ok] at hbytes
    split at hkeyring
    case isTrue hlength =>
      cases hkeyring
      exact StandardEngine.decode_eq_ok.mp hbytes
    case isFalse => cases hkeyring
  · intro h
    refine ⟨key.bytes, Effect.mapError_eq_ok.mpr (StandardEngine.decode_eq_ok.mpr h), ?_⟩
    rw [dif_pos key.length_eq]
    rfl

/-- Around an encoding, white space does not matter. -/
theorem fromBase64_pad {before after : List Char} (hbefore : Text.Blank before)
    (hafter : Text.Blank after) {alphabet : Alphabet} {padded : Bool} {key : MacaroonKey} :
    fromBase64 (.ofList (before ++ (encode alphabet padded key.bytes).toList ++ after)) = .ok ⟨key⟩
      ↔ padded = true ∧ (alphabet = .standard ∨ ∀ n ∈ sextets key.bytes, n.val < 62) := by
  have hlength : key.bytes.length % 3 ≠ 0 := by
    rw [key.length_eq]
    decide
  rw [fromBase64_eq_ok, Text.trim_pad hbefore hafter (Base64.trimmed_encode _ _ _),
    String.ofList_toList, Base64.encode_eq_standard hlength]

/-- A text that encodes, in any form, bytes of another length is refused. -/
theorem fromBase64_error {s : String} {alphabet : Alphabet} {padded : Bool} {bytes : Bytes}
    (hs : Text.trim s = encode alphabet padded bytes) (hlength : bytes.length ≠ 32) :
    ∃ e, fromBase64 s = .error e := by
  cases h : fromBase64 s with
  | error e => exact ⟨e, rfl⟩
  | ok keyring =>
    have hkey := fromBase64_eq_ok.mp h
    exact absurd ((Base64.length_of_encode (hs.symm.trans hkey)).trans keyring.root.length_eq)
      hlength

/-- Of the forms a key can be written in, with white space around it, exactly those are read in
which it is padded and no character depends on the alphabet, or the alphabet is the standard
one. Bytes of another length are refused in every form. -/
theorem from_base64_iff :
    (∀ (key : MacaroonKey) (alphabet : Alphabet) (padded : Bool) (before after : List Char),
      Text.Blank before → Text.Blank after →
      (fromBase64 (.ofList (before ++ (encode alphabet padded key.bytes).toList ++ after)) =
          .ok ⟨key⟩ ↔
        padded = true ∧ (alphabet = .standard ∨ ∀ n ∈ sextets key.bytes, n.val < 62))) ∧
    ∀ (s : String) (alphabet : Alphabet) (padded : Bool) (bytes : Bytes),
      Text.trim s = encode alphabet padded bytes → bytes.length ≠ 32 →
      ∃ e, fromBase64 s = .error e :=
  ⟨fun _ _ _ _ _ hbefore hafter => fromBase64_pad hbefore hafter,
    fun _ _ _ _ hs hlength => fromBase64_error hs hlength⟩

omit [StandardEngine] in
/-- The key of the integration tests in the URL-safe alphabet, with a newline behind it; and a
key whose characters all depend on the alphabet. -/
theorem from_base64_sample :
    letI := StandardEngine.canonical
    fromBase64 (.ofList ([] ++ (encode .urlSafe true (List.replicate 32 107)).toList ++ ['\n'])) =
      .ok ⟨⟨List.replicate 32 107, List.length_replicate⟩⟩ ∧
    fromBase64 (.ofList ([] ++ (encode .urlSafe true (List.replicate 32 255)).toList ++ [])) ≠
      .ok ⟨⟨List.replicate 32 255, List.length_replicate⟩⟩ ∧
    ∃ e, fromBase64 "AAEC" = .error e := by
  let _ := StandardEngine.canonical
  obtain ⟨hkey, herror⟩ := from_base64_iff
  refine ⟨?_, ?_, herror "AAEC" .standard false [0, 1, 2] (by decide) (by decide)⟩
  · exact (hkey ⟨List.replicate 32 107, List.length_replicate⟩ .urlSafe true [] ['\n'] (by decide)
      (by decide)).mpr (by decide)
  · exact fun h => absurd ((hkey ⟨List.replicate 32 255, List.length_replicate⟩ .urlSafe true [] []
      (by decide) (by decide)).mp h) (by decide)

omit [StandardEngine] in
/-- Without its padding the encoding of a key is refused. -/
theorem from_base64_unpadded :
    letI := StandardEngine.canonical
    ¬ ∀ (key : MacaroonKey) (alphabet : Alphabet) (padded : Bool),
      fromBase64 (encode alphabet padded key.bytes) = .ok ⟨key⟩ := by
  let _ := StandardEngine.canonical
  intro h
  have hkey := h ⟨List.replicate 32 0, List.length_replicate⟩ .standard false
  exact absurd (fromBase64_eq_ok.mp hkey) (by decide)

/-- The key loaded is the one of the variable, wherever there is something in it. -/
theorem loadKeyring_eq_ok {devDefault : Keyring} {raw : String} {key : MacaroonKey}
    (h : Text.trim raw ≠ "") :
    loadKeyring devDefault (some raw) = .ok ⟨key⟩ ↔
      Text.trim raw = encode .standard true key.bytes := by
  unfold loadKeyring
  rw [Option.getD_some, if_neg h, Effect.mapError_eq_ok, fromBase64_eq_ok]

end Keyring

end EdgeReplica
