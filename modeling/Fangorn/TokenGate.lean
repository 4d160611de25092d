import Fangorn.GadgetRegistry

/-! The composition `Psp22(c, m) && Sr25519()`, documented as "I own at least
the minimum balance": which accounts the two gadgets look at. -/

namespace Fangorn

open Rust Ink Scale

namespace GadgetRegistry

/-- An intent of the given type and statement, with its gadget or without. -/
structure Stands (r : GadgetRegistry) (ty : Str) (statement : Bytes) (intent : Intent) : Prop where
  attached : r.Attached intent
  type_eq : intent.intentType = ty
  statement_eq : intent.statement = statement

theorem Stands.verifyIntent {r : GadgetRegistry} {ty : Str} {statement : Bytes} {intent : Intent}
    (h : r.Stands ty statement intent) {gadget : Gadget} (hg : r.getGadget ty = some gadget)
    (w : Bytes) : r.verifyIntent intent w = gadget.verifyWitness w statement := by
  obtain ⟨hatt, rfl, rfl⟩ := h
  rw [← verifyIntent_detached hatt]
  simp [GadgetRegistry.verifyIntent, Intent.detached, Outcome.okOr, hg]

end GadgetRegistry

namespace TokenGate

open GadgetRegistry

section

variable (P : Primitives) (chain : Chain) (c : AccountId) (m : Nat)

def psp22Statement : Bytes := c.1 ++ leBytes 16 m

def holder (witness : Bytes) : Option AccountId := (fromUtf8 witness).map (decodePublicKey P)

def signer (witness : Bytes) : Option AccountId :=
  (fromUtf8 (witness.take 48)).map (decodePublicKey P)

def SameAccount (blob : Bytes) (i j : Nat) : Prop :=
  ∃ ws wi wj a, decodeWitnesses blob = some ws ∧ ws[i]? = some wi ∧ ws[j]? = some wj ∧
    holder P wi = some a ∧ signer P wj = some a

/-- Some text names an account that the token contract gives enough tokens. -/
def CanHold (a : AccountId) : Prop :=
  ∃ s balance, (asBytes s).length < 2 ^ 32 ∧ decodePublicKey P s = a ∧
    psp22Balance P chain c a = .ok balance ∧ m ≤ balance

/-- Some text of 48 bytes names an account with a signature on its nonce. -/
def CanSign (a : AccountId) : Prop :=
  ∃ s nonce sig, (asBytes s).length = 48 ∧ decodePublicKey P s = a ∧
    chain.account a = .ok (some nonce) ∧ P.sr25519Verify sig (leBytes 4 nonce.toNat) a = true

end

variable {P : Primitives} {chain : Chain} {c : AccountId} {m : Nat} {intents : List Intent}
  {i j : Nat} {blob : Bytes} {intent : Intent} {w : Bytes}

theorem holder_of_accepts (hm : m < 2 ^ 128)
    (hi : (deployed P chain).Stands "Psp22".toList (psp22Statement c m) intent)
    (hw : w.length < 2 ^ 32) (h : (deployed P chain).verifyIntent intent w = .ok true) :
    ∃ a, holder P w = some a ∧ CanHold P chain c m a := by
  rw [hi.verifyIntent deployed_psp22] at h
  obtain ⟨s, balance, rfl, hb, hle⟩ := (psp22_accepts_iff P chain hm).mp h
  have hholder : holder P (asBytes s) = some (decodePublicKey P s) := by simp [holder]
  exact ⟨_, hholder, s, balance, hw, rfl, hb, hle⟩

theorem signer_of_accepts
    (hj : (deployed P chain).Stands "Sr25519".toList [] intent)
    (h : (deployed P chain).verifyIntent intent w = .ok true) :
    ∃ a, signer P w = some a ∧ CanSign P chain a := by
  rw [hj.verifyIntent deployed_sr25519] at h
  obtain ⟨hlen, s, sig, nonce, hs, -, hn, hv⟩ := (sr25519_accepts_iff P chain).mp h
  have hsigner : signer P w = some (decodePublicKey P s) := by simp [signer, hs]
  have hs48 : (asBytes s).length = 48 := by
    rw [← hs, List.length_take, hlen]
    rfl
  exact ⟨_, hsigner, s, nonce, sig, hs48, rfl, hn, hv⟩

theorem exists_holder (hm : m < 2 ^ 128)
    (hi : (deployed P chain).Stands "Psp22".toList (psp22Statement c m) intent)
    {a : AccountId} (ha : CanHold P chain c m a) :
    ∃ w, w.length < 2 ^ 32 ∧ (deployed P chain).verifyIntent intent w = .ok true ∧
      holder P w = some a := by
  obtain ⟨s, balance, hlen, rfl, hb, hle⟩ := ha
  have haccept := (psp22_accepts_iff P chain hm).mpr ⟨s, balance, rfl, hb, hle⟩
  refine ⟨asBytes s, hlen, ?_, by simp [holder]⟩
  rw [hi.verifyIntent deployed_psp22]
  exact haccept

theorem exists_signer
    (hj : (deployed P chain).Stands "Sr25519".toList [] intent)
    {a : AccountId} (ha : CanSign P chain a) :
    ∃ w, w.length < 2 ^ 32 ∧ (deployed P chain).verifyIntent intent w = .ok true ∧
      signer P w = some a := by
  obtain ⟨s, nonce, sig, hlen, rfl, hn, hv⟩ := ha
  have htake : (asBytes s ++ Hex.encode sig.1).take 48 = asBytes s := List.take_left' hlen
  have hdrop : (asBytes s ++ Hex.encode sig.1).drop 48 = Hex.encode sig.1 := List.drop_left' hlen
  have htotal : (asBytes s ++ Hex.encode sig.1).length = 176 := by
    rw [List.length_append, hlen, Hex.length_of_decode (Hex.decode_encode sig.1), sig.2]
  refine ⟨asBytes s ++ Hex.encode sig.1, by rw [htotal]; decide, ?_, by simp [signer, htake]⟩
  rw [hj.verifyIntent deployed_sr25519]
  have hdec : Hex.decode ((asBytes s ++ Hex.encode sig.1).drop 48) = some sig.1 := by
    rw [hdrop, Hex.decode_encode]
  exact (sr25519_accepts_iff P chain).mpr ⟨htotal, s, sig, nonce, htake, hdec, hn, hv⟩

/-- Accepted witnesses at all other positions go with any accepted pair. -/
theorem exists_pair_accepted {pi si : Intent} (hpi : intents[i]? = some pi)
    (hsi : intents[j]? = some si) (hij : i ≠ j) (hlen : intents.length < 2 ^ 32)
    (hothers : ∀ k intent, k ≠ i → k ≠ j → intents[k]? = some intent →
      ∃ w, w.length < 2 ^ 32 ∧ (deployed P chain).verifyIntent intent w = .ok true)
    {wi wj : Bytes}
    (hi : wi.length < 2 ^ 32 ∧ (deployed P chain).verifyIntent pi wi = .ok true)
    (hj : wj.length < 2 ^ 32 ∧ (deployed P chain).verifyIntent si wj = .ok true) :
    ∃ blob ws, decodeWitnesses blob = some ws ∧ ws[i]? = some wi ∧ ws[j]? = some wj ∧
      (deployed P chain).verifyIntents intents blob = .ok true := by
  have hpos : ∀ k, ∃ w, (∀ intent, intents[k]? = some intent → w.length < 2 ^ 32 ∧
      (deployed P chain).verifyIntent intent w = .ok true) ∧
      (k = i → w = wi) ∧ (k = j → w = wj) := by
    intro k
    by_cases hki : k = i
    · subst hki
      refine ⟨wi, fun intent hk => ?_, fun _ => rfl, fun hkj => absurd hkj hij⟩
      obtain rfl : pi = intent := Option.some.inj (hpi.symm.trans hk)
      exact hi
    · by_cases hkj : k = j
      · subst hkj
        refine ⟨wj, fun intent hk => ?_, fun hki' => absurd hki' hki, fun _ => rfl⟩
        obtain rfl : si = intent := Option.some.inj (hsi.symm.trans hk)
        exact hj
      · cases hk : intents[k]? with
        | none =>
          exact ⟨[], fun _ h => by simp at h, fun h => absurd h hki, fun h => absurd h hkj⟩
        | some intent =>
          obtain ⟨w, hw, hv⟩ := hothers k intent hki hkj hk
          refine ⟨w, fun intent' h' => ?_, fun h => absurd h hki, fun h => absurd h hkj⟩
          obtain rfl := Option.some.inj h'
          exact ⟨hw, hv⟩
  choose f hf hfi hfj using hpos
  obtain ⟨blob, hblob, haccept⟩ := exists_accepted hlen f hf
  have hlti := (List.getElem?_eq_some_iff.mp hpi).1
  have hltj := (List.getElem?_eq_some_iff.mp hsi).1
  exact ⟨blob, _, hblob, by simp [hlti, hfi i rfl], by simp [hltj, hfj j rfl], haccept⟩

/-- Each gadget accepts its own account. The two are one for every accepted
blob only where nothing is accepted, or where no other pair of accounts holds
enough on one side and has a signature on the other. -/
theorem same_account_iff {pi si : Intent} (hm : m < 2 ^ 128) (hpi : intents[i]? = some pi)
    (hi : (deployed P chain).Stands "Psp22".toList (psp22Statement c m) pi)
    (hsi : intents[j]? = some si) (hj : (deployed P chain).Stands "Sr25519".toList [] si) :
    (∀ blob, (deployed P chain).verifyIntents intents blob = .ok true → SameAccount P blob i j) ↔
      2 ^ 32 ≤ intents.length ∨
      (∃ k intent, k ≠ i ∧ k ≠ j ∧ intents[k]? = some intent ∧ ∀ w, w.length < 2 ^ 32 →
        (deployed P chain).verifyIntent intent w ≠ .ok true) ∨
      ∀ a b, CanHold P chain c m a → CanSign P chain b → a = b := by
  constructor
  · intro h
    by_contra hcon
    push Not at hcon
    obtain ⟨hlen, hothers, a, b, ha, hb, hab⟩ := hcon
    obtain ⟨wi, hwi, hvi, hholder⟩ := exists_holder hm hi ha
    obtain ⟨wj, hwj, hvj, hsigner⟩ := exists_signer hj hb
    have hij : i ≠ j := by
      intro he
      subst he
      have hty := hi.type_eq.symm.trans (Option.some.inj (hpi.symm.trans hsi) ▸ hj.type_eq)
      exact absurd hty (by decide)
    obtain ⟨blob, ws, hblob, hgeti, hgetj, haccept⟩ :=
      exists_pair_accepted hpi hsi hij hlen hothers ⟨hwi, hvi⟩ ⟨hwj, hvj⟩
    obtain ⟨ws', wi', wj', a', hws, hwi', hwj', ha', hb'⟩ := h blob haccept
    obtain rfl : ws = ws' := Option.some.inj (hblob.symm.trans hws)
    obtain rfl : wi = wi' := Option.some.inj (hgeti.symm.trans hwi')
    obtain rfl : wj = wj' := Option.some.inj (hgetj.symm.trans hwj')
    rw [hholder, Option.some.injEq] at ha'
    rw [hsigner, Option.some.injEq] at hb'
    exact hab (ha'.trans hb'.symm)
  · intro h blob haccept
    obtain ⟨ws, wi, hws, hwi, hleni, hvi⟩ := accepted_at haccept hpi
    obtain ⟨ws', wj, hws', hwj, -, hvj⟩ := accepted_at haccept hsi
    obtain rfl : ws = ws' := Option.some.inj (hws.symm.trans hws')
    rcases h with hlong | hdead | hsame
    · obtain ⟨ws', hws', hall⟩ := verifyIntents_eq_true.mp haccept
      have := (decodeWitnesses_lengths hws').1
      have := hall.length_eq
      omega
    · obtain ⟨k, intent, -, -, hk, hno⟩ := hdead
      obtain ⟨_, w, -, -, hlen, hv⟩ := accepted_at haccept hk
      exact absurd hv (hno w hlen)
    · obtain ⟨a, hholder, ha⟩ := holder_of_accepts hm hi hleni hvi
      obtain ⟨b, hsigner, hb⟩ := signer_of_accepts hj hvj
      obtain rfl := hsame a b ha hb
      exact ⟨ws, wi, wj, a, hws, hwi, hwj, hholder, hsigner⟩

def richAddress : Str := "5GrwvaEF5zXb26Fz9rcQpDWS57CtERHpNehXCPcNoHGKutQY".toList

def rich : AccountId := beArr 32 0xd43593c715fdd31c61141abd04a99fd6822c8558854ccde39a5684e7a56da27d

def poorAddress : Str := "5FHneW46xGXgs5mUiveU4sbTyGBzmstUspZC92UhjJM694ty".toList

def poor : AccountId := beArr 32 0x8eaf04151687736326c9fea17e25fc5287613693c912909cb226aa4794f26a48

def twoAccounts : Primitives where
  sha256 _ := beArr 32 0
  blake2 _ := beArr 32 0x6568382fc5d287d208e54bc2d8752a2439b81930adbad599401b9960196a4cad
  fromSs58check s :=
    if s = richAddress then some rich else if s = poorAddress then some poor else none
  sr25519Verify sig message key :=
    decide (sig = beArr 64 1 ∧ message = leBytes 4 0 ∧ key = poor)

def twoBalances : Chain where
  call _ data := .ok (0 :: leBytes 16 (if data.drop 4 = rich.1 then 1000 else 0))
  account _ := .ok (some 0)

def token : AccountId := beArr 32 7

def tokenIntents : List Intent :=
  [⟨"Psp22".toList, psp22Statement token 100, none⟩, ⟨"Sr25519".toList, [], none⟩]

theorem rich_canHold : CanHold twoAccounts twoBalances token 100 rich :=
  ⟨richAddress, 1000, by decide, by decide, by decide, by decide⟩

theorem poor_canSign : CanSign twoAccounts twoBalances poor :=
  ⟨poorAddress, 0, beArr 64 1, by decide, by decide, rfl, by decide⟩

theorem tokenIntents_stand :
    (deployed twoAccounts twoBalances).Stands "Psp22".toList (psp22Statement token 100)
      ⟨"Psp22".toList, psp22Statement token 100, none⟩ ∧
    (deployed twoAccounts twoBalances).Stands "Sr25519".toList [] ⟨"Sr25519".toList, [], none⟩ :=
  ⟨⟨Or.inl rfl, rfl, rfl⟩, ⟨Or.inl rfl, rfl, rfl⟩⟩

/-- The address of the one account and the signature of the other. -/
theorem two_accounts_accepted : ∃ wi wj blob,
    decodeWitnesses blob = some [wi, wj] ∧
    (deployed twoAccounts twoBalances).verifyIntents tokenIntents blob = .ok true ∧
    holder twoAccounts wi = some rich ∧ signer twoAccounts wj = some poor ∧
    ¬ SameAccount twoAccounts blob 0 1 := by
  obtain ⟨wi, hwi, hvi, hholder⟩ := exists_holder (by decide) tokenIntents_stand.1 rich_canHold
  obtain ⟨wj, hwj, hvj, hsigner⟩ := exists_signer tokenIntents_stand.2 poor_canSign
  have hsize : ∀ w ∈ [wi, wj], w.length < 2 ^ 32 := by
    intro w hw
    rcases List.mem_pair.mp hw with rfl | rfl
    · exact hwi
    · exact hwj
  obtain ⟨blob, hblob⟩ := exists_decodeWitnesses (by simp) hsize
  have haccept := verifyIntents_eq_true.mpr ⟨_, hblob, .cons hvi (.cons hvj .nil)⟩
  refine ⟨wi, wj, blob, hblob, haccept, hholder, hsigner, fun h => ?_⟩
  obtain ⟨ws, vi, vj, a, hws, hvi', hvj', ha, hb⟩ := h
  obtain rfl : [wi, wj] = ws := Option.some.inj (hblob.symm.trans hws)
  obtain rfl : wi = vi := Option.some.inj hvi'
  obtain rfl : wj = vj := Option.some.inj hvj'
  have hkeys : rich = poor :=
    Option.some.inj ((hholder.symm.trans ha).trans (hb.symm.trans hsigner))
  exact absurd hkeys (by decide)

theorem same_account_iff_two_accounts :
    (∀ blob, (deployed twoAccounts twoBalances).verifyIntents tokenIntents blob = .ok true →
      SameAccount twoAccounts blob 0 1) ↔
    2 ^ 32 ≤ tokenIntents.length ∨
    (∃ k intent, k ≠ 0 ∧ k ≠ 1 ∧ tokenIntents[k]? = some intent ∧ ∀ w, w.length < 2 ^ 32 →
      (deployed twoAccounts twoBalances).verifyIntent intent w ≠ .ok true) ∨
    ∀ a b, CanHold twoAccounts twoBalances token 100 a → CanSign twoAccounts twoBalances b →
      a = b :=
  same_account_iff (by decide) rfl tokenIntents_stand.1 rfl tokenIntents_stand.2

end TokenGate

end Fangorn
