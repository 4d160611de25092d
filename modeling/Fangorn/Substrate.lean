import Fangorn.Lib.Outcome
import Fangorn.Lib.Ink

/-! What the node takes from its libraries and from the chain: the hash and
signature functions, address decoding (`utils.rs`), and the queries of
`SubstrateBackend` (`backend/substrate.rs`). -/

namespace Fangorn

open Rust Ink

structure Primitives where
  sha256 : Bytes → Arr 32
  blake2 : Bytes → Arr 32
  fromSs58check : Str → Option AccountId
  sr25519Verify : Arr 64 → Bytes → AccountId → Bool

/-- The chain in one fixed state: its answer to call data for a contract, and
the nonce of an account. -/
structure Chain where
  call : AccountId → Bytes → Except Str Bytes
  account : AccountId → Except Str (Option UInt32)

def zeroKey : AccountId := Scale.beArr 32 0

section Utils

variable (P : Primitives)

/-- An address that does not decode stands for the zero key. -/
def decodePublicKey (address : Str) : AccountId := (P.fromSs58check address).getD zeroKey

def decodeContractAddr (address : Str) : AccountId := (P.fromSs58check address).getD zeroKey

variable {P} {address : Str}

theorem decodePublicKey_of_some {a : AccountId} (h : P.fromSs58check address = some a) :
    decodePublicKey P address = a := by
  rw [decodePublicKey, h]
  rfl

theorem decodePublicKey_of_none (h : P.fromSs58check address = none) :
    decodePublicKey P address = zeroKey := by
  rw [decodePublicKey, h]
  rfl

theorem decodeContractAddr_of_some {c : AccountId} (h : P.fromSs58check address = some c) :
    decodeContractAddr P address = c := by
  rw [decodeContractAddr, h]
  rfl

end Utils

namespace SubstrateBackend

/-- How the chain treats a transaction: whether it gets into a block, and
whether the sender sees it finalized. -/
structure Transport where
  included : Bool
  confirmed : Bool

namespace Transport

variable {σ : Type}

/-- The result of a transaction for its sender, and the storage it leaves;
`call` is what the contract makes of it. -/
def deliver (t : Transport) (call : Outcome Unit σ) (s : σ) : Outcome Unit Unit × σ :=
  match call with
  | .ok s' => if t.included then (if t.confirmed then .ok () else .err (), s') else (.err (), s)
  | .err _ => (.err (), s)
  | .panic => (.panic, s)

variable {t : Transport} {call : Outcome Unit σ} {s : σ}

theorem deliver_eq_ok {s' : σ} : t.deliver call s = (.ok (), s') ↔
    call = .ok s' ∧ t.included = true ∧ t.confirmed = true := by
  cases call with
  | ok s'' => cases hi : t.included <;> cases hc : t.confirmed <;> simp [deliver, hi, hc]
  | err e => simp [deliver]
  | panic => simp [deliver]

theorem deliver_ne_panic : (t.deliver call s).1 ≠ .panic ↔ call ≠ .panic := by
  cases call with
  | ok s' => cases hi : t.included <;> cases hc : t.confirmed <;> simp [deliver, hi, hc]
  | err e => simp [deliver]
  | panic => simp [deliver]

end Transport

variable (blake2 : Bytes → Arr 32) (chain : Chain)

def callData (method : Str) (data : Bytes) : Bytes := selector blake2 method ++ data

def read (contractAddress : AccountId) (method : Str) (data : Option Bytes) :
    Outcome Str (Option Bytes) :=
  match chain.call contractAddress (callData blake2 method (data.getD [])) with
  | .ok data => .ok (some data)
  | .error e => .err ("Contract query failed: ".toList ++ e)

/-- The account entry is unwrapped: no entry is a panic. -/
def nonce (pubkey : AccountId) : Outcome Str UInt32 :=
  match chain.account pubkey with
  | .ok (some nonce) => .ok nonce
  | .ok none => .panic
  | .error e => .err e

theorem read_eq_ok {contract : AccountId} {method : Str} {data : Option Bytes}
    {r : Option Bytes} : read blake2 chain contract method data = .ok r ↔
      ∃ out, chain.call contract (callData blake2 method (data.getD [])) = .ok out ∧
        r = some out := by
  cases h : chain.call contract (callData blake2 method (data.getD [])) with
  | ok out => simp [read, h, eq_comm]
  | error e => simp [read, h]

theorem nonce_eq_ok {pubkey : AccountId} {n : UInt32} :
    nonce chain pubkey = .ok n ↔ chain.account pubkey = .ok (some n) := by
  unfold nonce
  split <;> simp_all

end SubstrateBackend

end Fangorn
