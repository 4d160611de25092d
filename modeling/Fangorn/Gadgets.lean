import Fangorn.IntentParser
import Fangorn.Substrate
import Fangorn.Lib.Hex

/-! Gadgets and their registry (`gadget/mod.rs`, `gadget/password.rs`,
`gadget/psp22.rs`, `gadget/sr25519.rs`). -/

namespace Fangorn

open Rust Ink Scale

/-- Error texts, where they are no plain text of the code: the debug output of
the parser's error and the message of the decoder. -/
inductive ErrorText where
  | text (s : Str)
  | debug (e : NomError)
  | decodeFailed
  deriving DecidableEq, Repr

inductive IntentError where
  | parseError (s : ErrorText)
  | verificationError (s : ErrorText)
  | unknownIntentType (s : Str)
  deriving DecidableEq, Repr

abbrev Checked (α : Type) := Outcome IntentError α

structure Gadget where
  intentTypeId : Str
  verifyWitness : Bytes → Bytes → Checked Bool
  parseIntentData : Str → Checked Bytes

def verificationError {α : Type} (s : String) : Checked α :=
  .err (.verificationError (.text s.toList))

def parseError {α : Type} (s : String) : Checked α := .err (.parseError (.text s.toList))

section

variable (P : Primitives) (chain : Chain)

def PasswordGadget : Gadget where
  intentTypeId := "Password".toList
  verifyWitness witness statement := .ok (decide ((P.sha256 witness).1 = statement))
  parseIntentData data := .ok (P.sha256 (asBytes data)).1

def psp22Balance (tokenContract witness : AccountId) : Checked Nat := do
  let result ← (SubstrateBackend.read P.blake2 chain tokenContract "PSP22::balance_of".toList
    (some witness.1)).mapErr fun e =>
      .verificationError (.text ("Contract query failed: ".toList ++ e))
  let data ← .expect result
  let (balance, _) ← .okOr (.verificationError .decodeFailed) ((uint 16).decode data.tail)
  .ok balance

/-- The statement is a token contract and a minimum balance, the witness an
address. -/
def psp22VerifyWitness (witness statement : Bytes) : Checked Bool := do
  let pubkeyString ← .expect (fromUtf8 witness)
  let witness := decodePublicKey P pubkeyString
  if statement.length ≠ 48 then
    verificationError "Statement must be 48 bytes (32 addr + 16 balance)"
  else do
    let tokenContract ← .expect (Arr.ofBytes? 32 (statement.take 32))
    let minimumBalance := leNat (statement.drop 32)
    let balance ← psp22Balance P chain tokenContract witness
    .ok (decide (minimumBalance ≤ balance))

def psp22ParseIntentData (data : Str) : Checked Bytes :=
  match split [','] data with
  | [addr, min] => do
    let contractAddr := decodeContractAddr P (trim addr)
    let minBalance ← .okOr (.parseError (.text "Minimum balance must be a valid u128.".toList))
      (parseUnsigned (2 ^ 128) (trim min))
    .ok (contractAddr.1 ++ leBytes 16 minBalance)
  | _ => parseError "PSP22 format: contract_address,minimum_balance"

def Psp22Gadget : Gadget where
  intentTypeId := "Psp22".toList
  verifyWitness := psp22VerifyWitness P chain
  parseIntentData := psp22ParseIntentData P

/-- The witness is an address of 48 characters and a signature of 128 hex digits
over the statement and the account's nonce. -/
def sr25519VerifyWitness (witness statement : Bytes) : Checked Bool :=
  if witness.length ≠ 176 then
    .err (.verificationError (.text
      ("Witness must be 176 bytes (Pubkey-as-ss58 + Signature). Got ".toList ++
        (toString witness.length).toList)))
  else do
    let pubkeyString ← .expect (fromUtf8 (witness.take 48))
    let pubkeyBytes := decodePublicKey P pubkeyString
    let sig ← .expect (Hex.decode (witness.drop 48))
    let signature ← .okOr (.verificationError (.text "Invalid Signature length".toList))
      (Arr.ofBytes? 64 sig)
    let nonce ← (SubstrateBackend.nonce chain pubkeyBytes).unwrap
    let message := statement ++ leBytes 4 nonce.toNat
    .ok (P.sr25519Verify signature message pubkeyBytes)

def Sr25519Gadget : Gadget where
  intentTypeId := "Sr25519".toList
  verifyWitness := sr25519VerifyWitness P chain
  parseIntentData _ := .ok []

theorem psp22_accepts_iff {c : AccountId} {m : Nat} (hm : m < 2 ^ 128) {w : Bytes} :
    psp22VerifyWitness P chain w (c.1 ++ leBytes 16 m) = .ok true ↔
      ∃ s balance, w = asBytes s ∧
        psp22Balance P chain c (decodePublicKey P s) = .ok balance ∧ m ≤ balance := by
  have hlen : (c.1 ++ leBytes 16 m).length = 48 := by simp [c.2]
  have haddr : (c.1 ++ leBytes 16 m).take 32 = c.1 := List.take_left' c.2
  have hmin : leNat ((c.1 ++ leBytes 16 m).drop 32) = m := by
    rw [List.drop_left' c.2, leNat_leBytes]
    exact Nat.mod_eq_of_lt (hm.trans_eq (by decide))
  have hc : Arr.ofBytes? 32 c.1 = some c := Arr.ofBytes?_eq_some.mpr rfl
  simp only [psp22VerifyWitness, hlen, haddr, hmin, hc, ne_eq, not_true, if_false,
    Outcome.bind_eq_ok, Outcome.expect_eq_ok, fromUtf8_eq_some, Outcome.ok.injEq,
    Option.some.injEq, exists_eq_left', decide_eq_true_eq]
  constructor
  · intro h
    obtain ⟨s, hs, balance, hb, hle⟩ := h
    exact ⟨s, balance, hs, hb, hle⟩
  · intro h
    obtain ⟨s, balance, hs, hb, hle⟩ := h
    exact ⟨s, hs, balance, hb, hle⟩

theorem sr25519_accepts_iff {w statement : Bytes} :
    sr25519VerifyWitness P chain w statement = .ok true ↔
      w.length = 176 ∧ ∃ s sig nonce, w.take 48 = asBytes s ∧
        Hex.decode (w.drop 48) = some sig.1 ∧
        chain.account (decodePublicKey P s) = .ok (some nonce) ∧
        P.sr25519Verify sig (statement ++ leBytes 4 nonce.toNat) (decodePublicKey P s) = true := by
  unfold sr25519VerifyWitness
  by_cases hlen : w.length = 176
  · simp only [hlen, ne_eq, not_true, if_false, true_and, Outcome.bind_eq_ok,
      Outcome.expect_eq_ok, fromUtf8_eq_some, Outcome.okOr_eq_ok, Arr.ofBytes?_eq_some,
      Outcome.unwrap_eq_ok, SubstrateBackend.nonce_eq_ok, Outcome.ok.injEq]
    constructor
    · intro h
      obtain ⟨s, hs, _, hd, sig, rfl, nonce, hn, hv⟩ := h
      exact ⟨s, sig, nonce, hs, hd, hn, hv⟩
    · intro h
      obtain ⟨s, sig, nonce, hs, hd, hn, hv⟩ := h
      exact ⟨s, hs, sig.1, hd, sig, rfl, nonce, hn, hv⟩
  · simp [hlen]

theorem psp22Balance_ne_panic (c a : AccountId) : psp22Balance P chain c a ≠ .panic := by
  have hread : SubstrateBackend.read P.blake2 chain c "PSP22::balance_of".toList (some a.1) ≠
      .panic := by
    unfold SubstrateBackend.read
    split <;> simp
  unfold psp22Balance
  rw [Outcome.bind_ne_panic]
  refine ⟨by simpa using hread, fun result hr => ?_⟩
  rw [Outcome.mapErr_eq_ok, SubstrateBackend.read_eq_ok] at hr
  obtain ⟨out, -, rfl⟩ := hr
  simp [Outcome.expect, Outcome.bind_ne_panic]

theorem psp22_ne_panic_iff {w statement : Bytes} :
    psp22VerifyWitness P chain w statement ≠ .panic ↔ ∃ s, w = asBytes s := by
  unfold psp22VerifyWitness
  rw [Outcome.expect_bind_ne_panic]
  simp only [fromUtf8_eq_some]
  constructor
  · intro h
    obtain ⟨s, hs, -⟩ := h
    exact ⟨s, hs⟩
  · intro h
    obtain ⟨s, hs⟩ := h
    refine ⟨s, hs, ?_⟩
    by_cases hlen : statement.length = 48
    · have htake : (statement.take 32).length = 32 := by simp [hlen]
      have hc : Arr.ofBytes? 32 (statement.take 32) = some ⟨statement.take 32, htake⟩ :=
        Arr.ofBytes?_eq_some.mpr rfl
      simp only [hlen, ne_eq, not_true, if_false]
      rw [← ne_eq, Outcome.expect_bind_ne_panic]
      refine ⟨_, hc, ?_⟩
      rw [Outcome.bind_ne_panic]
      exact ⟨psp22Balance_ne_panic P chain _ _, fun balance _ => by simp⟩
    · simp [hlen, verificationError]

theorem sr25519_ne_panic_iff {w statement : Bytes} :
    sr25519VerifyWitness P chain w statement ≠ .panic ↔ (w.length = 176 →
      ∃ s sig nonce, w.take 48 = asBytes s ∧ Hex.decode (w.drop 48) = some sig ∧
        chain.account (decodePublicKey P s) = .ok (some nonce)) := by
  unfold sr25519VerifyWitness
  by_cases hlen : w.length = 176
  · simp only [hlen, ne_eq, not_true, if_false, true_imp_iff]
    rw [← ne_eq, Outcome.expect_bind_ne_panic]
    simp only [fromUtf8_eq_some]
    constructor
    · intro h
      obtain ⟨s, hs, h⟩ := h
      rw [Outcome.expect_bind_ne_panic] at h
      obtain ⟨sig, hd, h⟩ := h
      have hsig64 : sig.length = 64 := by
        have := Hex.length_of_decode hd
        simp only [List.length_drop, hlen] at this
        omega
      rw [Outcome.bind_ne_panic] at h
      have hnonce := h.2 ⟨sig, hsig64⟩ (Outcome.okOr_eq_ok.mpr (Arr.ofBytes?_eq_some.mpr rfl))
      rw [Outcome.unwrap_bind_ne_panic] at hnonce
      obtain ⟨nonce, hn, -⟩ := hnonce
      rw [SubstrateBackend.nonce_eq_ok] at hn
      exact ⟨s, sig, nonce, hs, hd, hn⟩
    · intro h
      obtain ⟨s, sig, nonce, hs, hd, hn⟩ := h
      refine ⟨s, hs, Outcome.expect_bind_ne_panic.mpr ⟨sig, hd, ?_⟩⟩
      rw [Outcome.bind_ne_panic]
      refine ⟨Outcome.okOr_ne_panic, fun sig _ => ?_⟩
      have hnonce := (SubstrateBackend.nonce_eq_ok chain).mpr hn
      exact Outcome.unwrap_bind_ne_panic.mpr ⟨nonce, hnonce, nofun⟩
  · simp [hlen]

end

end Fangorn
