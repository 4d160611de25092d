import Fangorn.TokenGate

/-! What the two chain gadgets accept against what their intents say. An
address that does not decode is taken for the zero key in both of them, and
the first byte of a contract's answer is dropped unread. -/

namespace Fangorn

open Rust Ink Scale

open TokenGate

namespace AddressChecks

section

variable (P : Primitives) (chain : Chain)

/-- The data of the intent is `addr,m`, up to white space. -/
def Reads (d addr : Str) (m : Nat) : Prop :=
  ∃ x y, d = x ++ ',' :: y ∧ ',' ∉ x ∧ ',' ∉ y ∧ trim x = addr ∧
    parseUnsigned (2 ^ 128) (trim y) = some m

def balanceOf (c a : AccountId) : Except Str Bytes :=
  chain.call c (SubstrateBackend.callData P.blake2 "PSP22::balance_of".toList a.1)

def Suffices (out : Bytes) (m : Nat) : Prop :=
  ∃ balance rest, balance < 2 ^ 128 ∧ m ≤ balance ∧ out.tail = leBytes 16 balance ++ rest

def Reports (out : Bytes) (m : Nat) : Prop :=
  ∃ balance rest, balance < 2 ^ 128 ∧ m ≤ balance ∧ out = 0 :: (leBytes 16 balance ++ rest)

/-- What the intent says: the witness is the address of an account that has at
least the minimum balance in the contract that the data names. -/
def Means (d w : Str) : Prop :=
  ∃ addr m c a out, Reads d addr m ∧ P.fromSs58check addr = some c ∧
    P.fromSs58check w = some a ∧ balanceOf P chain c a = .ok out ∧ Reports out m

def Checks (d w : Str) : Prop :=
  ∃ addr m out, Reads d addr m ∧
    balanceOf P chain (decodeContractAddr P addr) (decodePublicKey P w) = .ok out ∧
    Suffices out m

/-- The witness is the address of an account and a signature of its own on the
statement and its nonce. -/
def NamesSigner (w statement : Bytes) : Prop :=
  w.length = 176 ∧ ∃ s a sig nonce, w.take 48 = asBytes s ∧ P.fromSs58check s = some a ∧
    Hex.decode (w.drop 48) = some sig.1 ∧ chain.account a = .ok (some nonce) ∧
    P.sr25519Verify sig (statement ++ leBytes 4 nonce.toNat) a = true

/-- No address, and a signature under the zero key. -/
def SignedByNobody (w statement : Bytes) : Prop :=
  w.length = 176 ∧ ∃ s sig nonce, w.take 48 = asBytes s ∧ P.fromSs58check s = none ∧
    Hex.decode (w.drop 48) = some sig.1 ∧ chain.account zeroKey = .ok (some nonce) ∧
    P.sr25519Verify sig (statement ++ leBytes 4 nonce.toNat) zeroKey = true

end

variable {P : Primitives} {chain : Chain} {d w addr : Str} {m : Nat} {s : Bytes}

theorem Reads.unique {addr' : Str} {m' : Nat} (h : Reads d addr m) (h' : Reads d addr' m') :
    addr = addr' ∧ m = m' := by
  obtain ⟨x, y, hd, hx, hy, rfl, hm⟩ := h
  obtain ⟨x', y', hd', hx', hy', rfl, hm'⟩ := h'
  have hs := split_eq_pair.mpr ⟨hd, hx, hy⟩
  rw [split_eq_pair.mpr ⟨hd', hx', hy'⟩] at hs
  simp only [List.cons.injEq, and_true] at hs
  obtain ⟨rfl, rfl⟩ := hs
  exact ⟨rfl, Option.some.inj (hm.symm.trans hm')⟩

theorem psp22ParseIntentData_eq_ok : psp22ParseIntentData P d = .ok s ↔
    ∃ addr m, Reads d addr m ∧ s = (decodeContractAddr P addr).1 ++ leBytes 16 m := by
  constructor
  · intro h
    unfold psp22ParseIntentData at h
    split at h
    · next x y hs =>
      obtain ⟨hd, hx, hy⟩ := split_eq_pair.mp hs
      obtain ⟨m, hm, h⟩ := Outcome.bind_eq_ok.mp h
      rw [Outcome.okOr_eq_ok] at hm
      exact ⟨trim x, m, ⟨x, y, hd, hx, hy, rfl, hm⟩, (Outcome.ok.inj h).symm⟩
    · cases h
  · intro h
    obtain ⟨_, m, ⟨x, y, hd, hx, hy, rfl, hm⟩, rfl⟩ := h
    rw [psp22ParseIntentData, split_eq_pair.mpr ⟨hd, hx, hy⟩]
    simp only [hm, Outcome.okOr, Outcome.ok_bind]

theorem psp22Balance_eq_ok {c a : AccountId} {balance : Nat} :
    psp22Balance P chain c a = .ok balance ↔ ∃ out rest, balanceOf P chain c a = .ok out ∧
      balance < 2 ^ 128 ∧ out.tail = leBytes 16 balance ++ rest := by
  simp only [psp22Balance, Outcome.bind_eq_ok, Outcome.mapErr_eq_ok,
    SubstrateBackend.read_eq_ok, Outcome.expect_eq_ok, Outcome.okOr_eq_ok, Prod.exists,
    uint_decode_eq_some, Outcome.ok.injEq]
  constructor
  · intro h
    obtain ⟨_, ⟨out, hcall, rfl⟩, data, hdata, n, rest, ⟨hn, ht⟩, rfl⟩ := h
    obtain rfl := Option.some.inj hdata
    exact ⟨out, rest, hcall, hn.trans_eq (by norm_num), ht⟩
  · intro h
    obtain ⟨out, rest, hcall, hn, ht⟩ := h
    exact ⟨_, ⟨out, hcall, rfl⟩, out, rfl, balance, rest, ⟨hn.trans_eq (by norm_num), ht⟩, rfl⟩

theorem psp22_checks (h : psp22ParseIntentData P d = .ok s) :
    psp22VerifyWitness P chain (asBytes w) s = .ok true ↔ Checks P chain d w := by
  obtain ⟨addr, m, hd, rfl⟩ := psp22ParseIntentData_eq_ok.mp h
  have hm : m < 2 ^ 128 := by
    obtain ⟨_, _, _, _, _, _, hm⟩ := hd
    exact parseUnsigned_lt hm
  rw [psp22_accepts_iff P chain hm]
  constructor
  · intro h
    obtain ⟨w', balance, hw, hb, hle⟩ := h
    obtain rfl := asBytes_injective hw
    obtain ⟨out, rest, hout, hlt, htail⟩ := psp22Balance_eq_ok.mp hb
    exact ⟨addr, m, out, hd, hout, balance, rest, hlt, hle, htail⟩
  · intro h
    obtain ⟨_, _, out, hd', hout, balance, rest, hlt, hle, htail⟩ := h
    obtain ⟨rfl, rfl⟩ := hd.unique hd'
    exact ⟨w, balance, rfl, psp22Balance_eq_ok.mpr ⟨out, rest, hout, hlt, htail⟩, hle⟩

theorem reports_iff {out : Bytes} : Reports out m ↔ out.head? = some 0 ∧ Suffices out m := by
  constructor
  · intro h
    obtain ⟨balance, rest, hlt, hle, rfl⟩ := h
    exact ⟨rfl, balance, rest, hlt, hle, rfl⟩
  · intro h
    obtain ⟨hhead, balance, rest, hlt, hle, htail⟩ := h
    obtain ⟨t, rfl⟩ := List.head?_eq_some_iff.mp hhead
    exact ⟨balance, rest, hlt, hle, congrArg (0 :: ·) htail⟩

theorem checks_iff (hd : Reads d addr m) : Checks P chain d w ↔
    ∃ out, balanceOf P chain (decodeContractAddr P addr) (decodePublicKey P w) = .ok out ∧
      Suffices out m := by
  constructor
  · intro h
    obtain ⟨_, _, out, hd', hout, hs⟩ := h
    obtain ⟨rfl, rfl⟩ := hd.unique hd'
    exact ⟨out, hout, hs⟩
  · intro h
    obtain ⟨out, hout, hs⟩ := h
    exact ⟨addr, m, out, hd, hout, hs⟩

theorem means_iff (hd : Reads d addr m) {c : AccountId} (hc : P.fromSs58check addr = some c) :
    Means P chain d w ↔ ∃ a out, P.fromSs58check w = some a ∧ balanceOf P chain c a = .ok out ∧
      Reports out m := by
  constructor
  · intro h
    obtain ⟨_, _, c', a, out, hd', hc', ha, hout, hr⟩ := h
    obtain ⟨rfl, rfl⟩ := hd.unique hd'
    obtain rfl := Option.some.inj (hc.symm.trans hc')
    exact ⟨a, out, ha, hout, hr⟩
  · intro h
    obtain ⟨a, out, ha, hout, hr⟩ := h
    exact ⟨addr, m, c, a, out, hd, hc, ha, hout, hr⟩

theorem checks_means_iff (hd : Reads d addr m) {c : AccountId}
    (hc : P.fromSs58check addr = some c) : (Checks P chain d w ↔ Means P chain d w) ↔
      (∃ a, P.fromSs58check w = some a ∧ ∀ out, balanceOf P chain c a = .ok out →
          Suffices out m → out.head? = some 0) ∨
        P.fromSs58check w = none ∧ ∀ out, balanceOf P chain c zeroKey = .ok out →
          ¬ Suffices out m := by
  rw [checks_iff hd, means_iff hd hc, decodeContractAddr_of_some hc]
  cases ha : P.fromSs58check w with
  | some a =>
    rw [decodePublicKey_of_some ha]
    constructor
    · intro h
      refine Or.inl ⟨a, rfl, fun out hout hs => ?_⟩
      obtain ⟨a', out', ha', hout', hr⟩ := h.mp ⟨out, hout, hs⟩
      obtain rfl := Option.some.inj ha'
      obtain rfl := Except.ok.inj (hout.symm.trans hout')
      exact (reports_iff.mp hr).1
    · intro h
      obtain ⟨a', ha', htag⟩ := h.resolve_right (by simp)
      obtain rfl := Option.some.inj ha'
      constructor
      · intro hh
        obtain ⟨out, hout, hs⟩ := hh
        exact ⟨a, out, rfl, hout, reports_iff.mpr ⟨htag out hout hs, hs⟩⟩
      · intro hh
        obtain ⟨a', out, ha', hout, hr⟩ := hh
        obtain rfl := Option.some.inj ha'
        exact ⟨out, hout, (reports_iff.mp hr).2⟩
  | none =>
    rw [decodePublicKey_of_none ha]
    constructor
    · intro h
      refine Or.inr ⟨rfl, fun out hout hs => ?_⟩
      obtain ⟨_, _, ha', -⟩ := h.mp ⟨out, hout, hs⟩
      cases ha'
    · intro h
      obtain ⟨-, hshort⟩ := h.resolve_left (by simp)
      constructor
      · intro hh
        obtain ⟨out, hout, hs⟩ := hh
        exact absurd hs (hshort out hout)
      · intro hh
        obtain ⟨_, _, ha', -⟩ := hh
        cases ha'

/-- With valid addresses and a success tag the gadget means what its intent
says. Any other witness or answer must fall short, and an intent with any
other address must not have been made. -/
theorem psp22_means_iff (h : psp22ParseIntentData P d = .ok s) :
    ((psp22VerifyWitness P chain (asBytes w) s = .ok true ↔ Means P chain d w) ∧
      ∀ addr m, Reads d addr m → ∃ c, P.fromSs58check addr = some c) ↔
    ∃ addr m c, Reads d addr m ∧ P.fromSs58check addr = some c ∧
      ((∃ a, P.fromSs58check w = some a ∧ ∀ out, balanceOf P chain c a = .ok out →
          Suffices out m → out.head? = some 0) ∨
        P.fromSs58check w = none ∧ ∀ out, balanceOf P chain c zeroKey = .ok out →
          ¬ Suffices out m) := by
  obtain ⟨addr, m, hd, -⟩ := psp22ParseIntentData_eq_ok.mp h
  rw [psp22_checks h]
  constructor
  · intro hh
    obtain ⟨hiff, hvalid⟩ := hh
    obtain ⟨c, hc⟩ := hvalid addr m hd
    exact ⟨addr, m, c, hd, hc, (checks_means_iff hd hc).mp hiff⟩
  · intro hh
    obtain ⟨_, _, c, hd', hc, hcases⟩ := hh
    obtain ⟨rfl, rfl⟩ := hd.unique hd'
    refine ⟨(checks_means_iff hd hc).mpr hcases, fun addr' m' hd' => ?_⟩
    obtain ⟨rfl, -⟩ := hd.unique hd'
    exact ⟨c, hc⟩

def zeroHolds : Chain where
  call _ data := .ok (0 :: leBytes 16 (if data.drop 4 = zeroKey.1 then 1000 else 0))
  account _ := .ok (some 0)

def hundredTokens : Str := richAddress ++ ",100".toList

theorem reads_hundredTokens : Reads hundredTokens richAddress 100 :=
  ⟨richAddress, "100".toList, rfl, by decide, by decide, by decide, by decide⟩

theorem parse_hundredTokens :
    psp22ParseIntentData twoAccounts hundredTokens = .ok (rich.1 ++ leBytes 16 100) :=
  psp22ParseIntentData_eq_ok.mpr ⟨richAddress, 100, reads_hundredTokens, by
    rw [show decodeContractAddr twoAccounts richAddress = rich by decide]⟩

theorem nobody_accepted :
    psp22ParseIntentData twoAccounts hundredTokens = .ok (rich.1 ++ leBytes 16 100) ∧
    psp22VerifyWitness twoAccounts zeroHolds (asBytes "nobody".toList)
      (rich.1 ++ leBytes 16 100) = .ok true ∧
    ¬ Means twoAccounts zeroHolds hundredTokens "nobody".toList := by
  refine ⟨parse_hundredTokens, (psp22_checks parse_hundredTokens).mpr ?_, ?_⟩
  · exact ⟨richAddress, 100, _, reads_hundredTokens, rfl, 1000, [], by decide, by decide, by decide⟩
  · intro h
    obtain ⟨_, _, _, _, _, _, _, ha, _⟩ := h
    have hnone : twoAccounts.fromSs58check "nobody".toList = none := by decide
    exact absurd (hnone.symm.trans ha) (by simp)

theorem psp22_means_iff_rich :
    ((psp22VerifyWitness twoAccounts zeroHolds (asBytes richAddress)
        (rich.1 ++ leBytes 16 100) = .ok true ↔
          Means twoAccounts zeroHolds hundredTokens richAddress) ∧
      ∀ addr m, Reads hundredTokens addr m → ∃ c, twoAccounts.fromSs58check addr = some c) ↔
    ∃ addr m c, Reads hundredTokens addr m ∧ twoAccounts.fromSs58check addr = some c ∧
      ((∃ a, twoAccounts.fromSs58check richAddress = some a ∧
          ∀ out, balanceOf twoAccounts zeroHolds c a = .ok out → Suffices out m →
            out.head? = some 0) ∨
        twoAccounts.fromSs58check richAddress = none ∧
          ∀ out, balanceOf twoAccounts zeroHolds c zeroKey = .ok out → ¬ Suffices out m) :=
  psp22_means_iff parse_hundredTokens

/-- An accepted signature is one of the account that the witness names, unless
it names none and the signature verifies under the zero key. -/
theorem sr25519_names_signer_iff {w statement : Bytes} :
    (sr25519VerifyWitness P chain w statement = .ok true → NamesSigner P chain w statement) ↔
      ¬ SignedByNobody P chain w statement := by
  rw [sr25519_accepts_iff]
  constructor
  · intro h hn
    obtain ⟨hlen, s, sig, nonce, hs, hnone, hdec, hacc, hv⟩ := hn
    have hkey := decodePublicKey_of_none hnone
    obtain ⟨-, s', a, -, -, hs', ha, -⟩ :=
      h ⟨hlen, s, sig, nonce, hs, hdec, by rw [hkey, hacc], by rw [hkey, hv]⟩
    obtain rfl := asBytes_injective (hs.symm.trans hs')
    simp [hnone] at ha
  · intro h hacc
    obtain ⟨hlen, s, sig, nonce, hs, hdec, hn, hv⟩ := hacc
    cases ha : P.fromSs58check s with
    | some a =>
      rw [decodePublicKey_of_some ha] at hn hv
      exact ⟨hlen, s, a, sig, nonce, hs, ha, hdec, hn, hv⟩
    | none =>
      rw [decodePublicKey_of_none ha] at hn hv
      exact absurd ⟨hlen, s, sig, nonce, hs, ha, hdec, hn, hv⟩ h

/-- A signature on the zero key, which takes no secret. -/
def degenerate : Primitives :=
  { twoAccounts with
    sr25519Verify := fun sig _ key => decide (sig = beArr 64 0x80 ∧ key = zeroKey) }

def nobodyWitness : Bytes :=
  asBytes (List.replicate 48 'x') ++ Hex.encode (beArr 64 0x80).1

theorem nobody_signs : sr25519VerifyWitness degenerate zeroHolds nobodyWitness [] = .ok true ∧
    ¬ NamesSigner degenerate zeroHolds nobodyWitness [] := by
  have hlen : (asBytes (List.replicate 48 'x')).length = 48 := by decide
  have htake : nobodyWitness.take 48 = asBytes (List.replicate 48 'x') := List.take_left' hlen
  have hdrop : nobodyWitness.drop 48 = Hex.encode (beArr 64 0x80).1 := List.drop_left' hlen
  have htotal : nobodyWitness.length = 176 := by
    rw [nobodyWitness, List.length_append, hlen, Hex.length_of_decode (Hex.decode_encode _),
      (beArr 64 0x80).2]
  have hnone : degenerate.fromSs58check (List.replicate 48 'x') = none := by decide
  have hkey := decodePublicKey_of_none hnone
  refine ⟨(sr25519_accepts_iff _ _).mpr ⟨htotal, _, beArr 64 0x80, 0, htake, ?_, rfl, ?_⟩, ?_⟩
  · rw [hdrop, Hex.decode_encode]
  · rw [hkey]
    have hself : beArr 64 0x80 = beArr 64 0x80 ∧ zeroKey = zeroKey := ⟨rfl, rfl⟩
    exact decide_eq_true hself
  · intro h
    obtain ⟨-, s, a, _, _, hs, ha, _⟩ := h
    obtain rfl := asBytes_injective (htake.symm.trans hs)
    exact absurd (hnone.symm.trans ha) (by simp)

end AddressChecks

end Fangorn
