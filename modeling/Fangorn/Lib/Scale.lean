import Fangorn.Lib.Text
import Mathlib.Tactic.Ring

/-! SCALE encoding as codecs that carry their own law. An encoder has no value
where the library refuses to encode (a collection of 2^32 or more elements);
a decoder returns the value and the bytes left over. -/

namespace Scale

open Rust

abbrev Decoder (α : Type) := Bytes → Option (α × Bytes)

/-- An input decodes to `a` exactly when it starts with the encoding of `a`. -/
structure Codec (α : Type) where
  encode : α → Option Bytes
  decode : Decoder α
  spec : ∀ b a rest, decode b = some (a, rest) ↔ ∃ e, encode a = some e ∧ b = e ++ rest

namespace Codec

variable {α β : Type}

theorem decode_append (c : Codec α) {a : α} {e : Bytes} (h : c.encode a = some e) (rest : Bytes) :
    c.decode (e ++ rest) = some (a, rest) := (c.spec _ _ _).mpr ⟨e, h, rfl⟩

theorem decode_encode (c : Codec α) {a : α} {e : Bytes} (h : c.encode a = some e) :
    c.decode e = some (a, []) := by
  simpa using c.decode_append h []

end Codec

def leBytes : Nat → Nat → Bytes
  | 0, _ => []
  | k + 1, n => UInt8.ofNat n :: leBytes k (n / 256)

def leNat : Bytes → Nat
  | [] => 0
  | b :: bs => b.toNat + 256 * leNat bs

@[simp] theorem leBytes_length (k n : Nat) : (leBytes k n).length = k := by
  induction k generalizing n with
  | zero => rfl
  | succ k ih => simp [leBytes, ih]

theorem leNat_leBytes (k n : Nat) : leNat (leBytes k n) = n % 256 ^ k := by
  induction k generalizing n with
  | zero => simp [leBytes, leNat, Nat.mod_one]
  | succ k ih =>
    have hn : (UInt8.ofNat n).toNat = n % 256 := UInt8.toNat_ofNat'
    rw [leBytes, leNat, ih, hn, pow_succ', Nat.mod_mul]

theorem leBytes_leNat (b : Bytes) : leBytes b.length (leNat b) = b := by
  induction b with
  | nil => rfl
  | cons x b ih =>
    have hx := x.toNat_lt
    have hdiv : (x.toNat + 256 * leNat b) / 256 = leNat b := by omega
    have hmod : UInt8.ofNat (x.toNat + 256 * leNat b) = x := by
      apply UInt8.toNat_inj.mp
      rw [UInt8.toNat_ofNat']
      omega
    simp only [List.length_cons, leBytes, leNat, hdiv, ih, hmod]

theorem leNat_lt (b : Bytes) : leNat b < 256 ^ b.length := by
  induction b with
  | nil => simp [leNat]
  | cons x b ih =>
    have hx := x.toNat_lt
    simp only [leNat, List.length_cons, pow_succ']
    omega

def beArr (k n : Nat) : Arr k := ⟨(leBytes k n).reverse, by simp⟩

def takeN (n : Nat) : Decoder Bytes := fun b =>
  if n ≤ b.length then some (b.take n, b.drop n) else none

theorem takeN_eq_some {n : Nat} {b v rest : Bytes} :
    takeN n b = some (v, rest) ↔ v.length = n ∧ b = v ++ rest := by
  constructor
  · intro h
    simp only [takeN, Option.ite_none_right_eq_some, Option.some.injEq, Prod.mk.injEq] at h
    obtain ⟨hn, rfl, rfl⟩ := h
    exact ⟨List.length_take_of_le hn, (List.take_append_drop n b).symm⟩
  · intro hh
    obtain ⟨rfl, rfl⟩ := hh
    simp [takeN]

/-- `u8`, `u32`, `u64` and `u128` for a width of 1, 4, 8 and 16 bytes. -/
def uint (k : Nat) : Codec Nat where
  encode n := if n < 256 ^ k then some (leBytes k n) else none
  decode b := (takeN k b).map fun p => (leNat p.1, p.2)
  spec b n rest := by
    simp only [Option.map_eq_some_iff, Prod.exists, takeN_eq_some, Prod.mk.injEq,
      Option.ite_none_right_eq_some, Option.some.injEq]
    constructor
    · intro hh
      obtain ⟨v, r, ⟨hv, rfl⟩, rfl, rfl⟩ := hh
      exact ⟨v, ⟨hv ▸ leNat_lt v, by rw [← hv, leBytes_leNat]⟩, rfl⟩
    · intro hh
      obtain ⟨e, ⟨hn, rfl⟩, rfl⟩ := hh
      exact ⟨leBytes k n, rest, ⟨leBytes_length k n, rfl⟩,
        by rw [leNat_leBytes, Nat.mod_eq_of_lt hn], rfl⟩

def compactBytes (n : Nat) : Bytes :=
  if n < 2 ^ 6 then leBytes 1 (4 * n)
  else if n < 2 ^ 14 then leBytes 2 (4 * n + 1)
  else if n < 2 ^ 30 then leBytes 4 (4 * n + 2)
  else 3 :: leBytes 4 n

/-- The width of each mode. -/
def compactLength (n : Nat) : Nat :=
  if n < 2 ^ 6 then 1 else if n < 2 ^ 14 then 2 else if n < 2 ^ 30 then 4 else 5

theorem compactBytes_length (n : Nat) : (compactBytes n).length = compactLength n := by
  unfold compactBytes compactLength
  split_ifs <;> simp

/-- A multi-byte mode refuses values that a shorter one holds. -/
def decodeCompact : Decoder Nat
  | [] => none
  | p :: b =>
    if p.toNat % 4 = 0 then some (p.toNat / 4, b)
    else if p.toNat % 4 = 1 then do
      let (x, rest) ← (uint 2).decode (p :: b)
      if 2 ^ 6 ≤ x / 4 then some (x / 4, rest) else none
    else if p.toNat % 4 = 2 then do
      let (x, rest) ← (uint 4).decode (p :: b)
      if 2 ^ 14 ≤ x / 4 then some (x / 4, rest) else none
    else if p.toNat / 4 = 0 then do
      let (x, rest) ← (uint 4).decode b
      if 2 ^ 30 ≤ x then some (x, rest) else none
    else none

theorem leBytes_succ_append (k n : Nat) (rest : Bytes) :
    leBytes (k + 1) n ++ rest = UInt8.ofNat n :: (leBytes k (n / 256) ++ rest) := rfl

theorem uint_decode_leBytes {k n : Nat} (h : n < 256 ^ k) (rest : Bytes) :
    (uint k).decode (leBytes k n ++ rest) = some (n, rest) :=
  (uint k).decode_append (by simp [uint, h]) rest

theorem uint_decode_eq_some {k n : Nat} {b rest : Bytes} :
    (uint k).decode b = some (n, rest) ↔ n < 256 ^ k ∧ b = leBytes k n ++ rest := by
  rw [(uint k).spec]
  simp only [uint, Option.ite_none_right_eq_some, Option.some.injEq]
  constructor
  · intro hh
    obtain ⟨e, ⟨hn, rfl⟩, rfl⟩ := hh
    exact ⟨hn, rfl⟩
  · intro hh
    obtain ⟨hn, rfl⟩ := hh
    exact ⟨_, ⟨hn, rfl⟩, rfl⟩

theorem decodeCompact_compactBytes {n : Nat} (h : n < 2 ^ 32) (rest : Bytes) :
    decodeCompact (compactBytes n ++ rest) = some (n, rest) := by
  have hmod (k : Nat) : (UInt8.ofNat k).toNat = k % 256 := UInt8.toNat_ofNat'
  unfold compactBytes
  split_ifs with h6 h14 h30
  · rw [leBytes_succ_append, decodeCompact, hmod, if_pos (by omega)]
    simp only [leBytes, List.nil_append, Option.some.injEq, Prod.mk.injEq, and_true]
    omega
  · have hu := uint_decode_leBytes (k := 2) (n := 4 * n + 1) (by omega) rest
    rw [leBytes_succ_append] at hu ⊢
    rw [decodeCompact, hmod, if_neg (by omega), if_pos (by omega), hu]
    simp only [Option.bind_eq_bind, Option.bind_some]
    rw [if_pos (by omega), show (4 * n + 1) / 4 = n by omega]
  · have hu := uint_decode_leBytes (k := 4) (n := 4 * n + 2) (by omega) rest
    rw [leBytes_succ_append] at hu ⊢
    rw [decodeCompact, hmod, if_neg (by omega), if_neg (by omega), if_pos (by omega), hu]
    simp only [Option.bind_eq_bind, Option.bind_some]
    rw [if_pos (by omega), show (4 * n + 2) / 4 = n by omega]
  · have hu := uint_decode_leBytes (k := 4) (n := n) (by omega) rest
    rw [List.cons_append, decodeCompact, if_neg (by decide), if_neg (by decide),
      if_neg (by decide), if_pos (by decide), hu]
    simp only [Option.bind_eq_bind, Option.bind_some]
    rw [if_pos (by omega)]

theorem decodeCompact_canonical {b rest : Bytes} {n : Nat}
    (h : decodeCompact b = some (n, rest)) : n < 2 ^ 32 ∧ b = compactBytes n ++ rest := by
  cases b with
  | nil => simp [decodeCompact] at h
  | cons p b =>
    have hp := p.toNat_lt
    have hofNat (k : Nat) (hk : k % 256 = p.toNat) : UInt8.ofNat k = p := by
      apply UInt8.toNat_inj.mp
      rw [UInt8.toNat_ofNat', ← hk]
    have hhead {k x : Nat} {r : Bytes} (hb : p :: b = leBytes (k + 1) x ++ r) :
        p.toNat = x % 256 := by
      rw [leBytes_succ_append, List.cons.injEq] at hb
      rw [hb.1, UInt8.toNat_ofNat']
    rw [decodeCompact] at h
    split_ifs at h with m0 m1 m2 m3
    · simp only [Option.some.injEq, Prod.mk.injEq] at h
      obtain ⟨rfl, rfl⟩ := h
      refine ⟨by omega, ?_⟩
      rw [compactBytes, if_pos (by omega), leBytes_succ_append, hofNat _ (by omega)]
      rfl
    · obtain ⟨⟨x, r⟩, hx, h⟩ := Option.bind_eq_some_iff.mp h
      obtain ⟨hlt, hb⟩ := uint_decode_eq_some.mp hx
      simp only [Option.ite_none_right_eq_some, Option.some.injEq, Prod.mk.injEq] at h
      obtain ⟨hge, rfl, rfl⟩ := h
      have hh := hhead hb
      refine ⟨by omega, ?_⟩
      rw [compactBytes, if_neg (by omega), if_pos (by omega), hb,
        show 4 * (x / 4) + 1 = x by omega]
    · obtain ⟨⟨x, r⟩, hx, h⟩ := Option.bind_eq_some_iff.mp h
      obtain ⟨hlt, hb⟩ := uint_decode_eq_some.mp hx
      simp only [Option.ite_none_right_eq_some, Option.some.injEq, Prod.mk.injEq] at h
      obtain ⟨hge, rfl, rfl⟩ := h
      have hh := hhead hb
      refine ⟨by omega, ?_⟩
      rw [compactBytes, if_neg (by omega), if_neg (by omega), if_pos (by omega), hb,
        show 4 * (x / 4) + 2 = x by omega]
    · obtain ⟨⟨x, r⟩, hx, h⟩ := Option.bind_eq_some_iff.mp h
      obtain ⟨hlt, hb⟩ := uint_decode_eq_some.mp hx
      simp only [Option.ite_none_right_eq_some, Option.some.injEq, Prod.mk.injEq] at h
      obtain ⟨hge, rfl, rfl⟩ := h
      have hp3 : p = 3 := (hofNat 3 (by omega)).symm
      refine ⟨by omega, ?_⟩
      rw [compactBytes, if_neg (by omega), if_neg (by omega), if_neg (by omega), hb, hp3]
      rfl

def compact : Codec Nat where
  encode n := if n < 2 ^ 32 then some (compactBytes n) else none
  decode := decodeCompact
  spec b n rest := by
    simp only [Option.ite_none_right_eq_some, Option.some.injEq]
    constructor
    · intro h
      obtain ⟨hn, hb⟩ := decodeCompact_canonical h
      exact ⟨_, ⟨hn, rfl⟩, hb⟩
    · intro hh
      obtain ⟨e, ⟨hn, rfl⟩, rfl⟩ := hh
      exact decodeCompact_compactBytes hn rest

namespace Codec

variable {α β : Type}

def bytes : Codec Bytes where
  encode v := (compact.encode v.length).map (· ++ v)
  decode b := do
    let (n, b) ← compact.decode b
    takeN n b
  spec b v rest := by
    simp only [Option.bind_eq_bind, Option.bind_eq_some_iff, Prod.exists, compact.spec,
      takeN_eq_some, Option.map_eq_some_iff]
    constructor
    · intro hh
      obtain ⟨n, r, ⟨e, he, rfl⟩, rfl, rfl⟩ := hh
      exact ⟨_, ⟨e, he, rfl⟩, (List.append_assoc _ _ _).symm⟩
    · intro hh
      obtain ⟨_, ⟨e, he, rfl⟩, rfl⟩ := hh
      exact ⟨_, v ++ rest, ⟨e, he, List.append_assoc _ _ _⟩, rfl, rfl⟩

def u8 : Codec UInt8 where
  encode n := some [n]
  decode
    | [] => none
    | n :: rest => some (n, rest)
  spec b n rest := by
    cases b with
    | nil => simp
    | cons x b => simp

/-- `[u8; n]`. -/
def arr (n : Nat) : Codec (Arr n) where
  encode a := some a.1
  decode b := (takeN n b).bind fun p => (Arr.ofBytes? n p.1).map fun a => (a, p.2)
  spec b a rest := by
    simp only [Option.bind_eq_some_iff, Prod.exists, takeN_eq_some, Option.map_eq_some_iff,
      Arr.ofBytes?_eq_some, Prod.mk.injEq, Option.some.injEq]
    constructor
    · intro hh
      obtain ⟨v, r, ⟨hv, rfl⟩, _, rfl, rfl, rfl⟩ := hh
      exact ⟨_, rfl, rfl⟩
    · intro hh
      obtain ⟨_, rfl, rfl⟩ := hh
      exact ⟨a.1, rest, ⟨a.2, rfl⟩, a, rfl, rfl, rfl⟩

def pair (c : Codec α) (d : Codec β) : Codec (α × β) where
  encode p := do
    let e ← c.encode p.1
    let e' ← d.encode p.2
    some (e ++ e')
  decode b := do
    let (x, b) ← c.decode b
    let (y, b) ← d.decode b
    some ((x, y), b)
  spec b p rest := by
    obtain ⟨x, y⟩ := p
    simp only [Option.bind_eq_bind, Option.bind_eq_some_iff, Prod.exists, c.spec, d.spec,
      Option.some.injEq, Prod.mk.injEq]
    constructor
    · intro hh
      obtain ⟨_, _, ⟨e, he, rfl⟩, _, _, ⟨e', he', rfl⟩, ⟨rfl, rfl⟩, rfl⟩ := hh
      exact ⟨_, ⟨e, he, e', he', rfl⟩, (List.append_assoc _ _ _).symm⟩
    · intro hh
      obtain ⟨_, ⟨e, he, e', he', rfl⟩, rfl⟩ := hh
      exact ⟨x, _, ⟨e, he, List.append_assoc _ _ _⟩, y, rest, ⟨e', he', rfl⟩, ⟨rfl, rfl⟩, rfl⟩

/-- A partial view of `α` through `β`, as a type whose decoding checks more
than its representation does. -/
def view (c : Codec β) (f : α → β) (g : β → Option α)
    (hfg : ∀ a b, g b = some a ↔ f a = b) : Codec α where
  encode a := c.encode (f a)
  decode b := do
    let (x, b) ← c.decode b
    (g x).map fun a => (a, b)
  spec b a rest := by
    simp only [Option.bind_eq_bind, Option.bind_eq_some_iff, Prod.exists, c.spec,
      Option.map_eq_some_iff, hfg, Prod.mk.injEq]
    constructor
    · intro hh
      obtain ⟨_, r, ⟨e, he, rfl⟩, _, rfl, rfl, rfl⟩ := hh
      exact ⟨e, he, rfl⟩
    · intro hh
      obtain ⟨e, he, rfl⟩ := hh
      exact ⟨_, rest, ⟨e, he, rfl⟩, a, rfl, rfl, rfl⟩

def str : Codec Str :=
  bytes.view asBytes fromUtf8 fun s b => by rw [fromUtf8_eq_some, eq_comm]

def encodeAll (c : Codec α) : List α → Option Bytes
  | [] => some []
  | x :: xs => do
    let e ← c.encode x
    let es ← encodeAll c xs
    some (e ++ es)

def decodeAll (c : Codec α) : Nat → Decoder (List α)
  | 0, b => some ([], b)
  | n + 1, b => do
    let (x, b) ← c.decode b
    let (xs, b) ← decodeAll c n b
    some (x :: xs, b)

theorem decodeAll_eq_some (c : Codec α) {n : Nat} {b rest : Bytes} {xs : List α} :
    c.decodeAll n b = some (xs, rest) ↔
      xs.length = n ∧ ∃ e, c.encodeAll xs = some e ∧ b = e ++ rest := by
  induction n generalizing b rest xs with
  | zero =>
    simp only [decodeAll, Option.some.injEq, Prod.mk.injEq, List.length_eq_zero_iff]
    constructor
    · intro hh
      obtain ⟨rfl, rfl⟩ := hh
      exact ⟨rfl, [], rfl, rfl⟩
    · intro hh
      obtain ⟨rfl, e, he, rfl⟩ := hh
      obtain rfl : [] = e := Option.some.inj he
      exact ⟨rfl, rfl⟩
  | succ n ih =>
    simp only [decodeAll, Option.bind_eq_bind, Option.bind_eq_some_iff, Prod.exists, c.spec, ih,
      Option.some.injEq, Prod.mk.injEq]
    constructor
    · intro hh
      obtain ⟨x, _, ⟨e, he, rfl⟩, xs, r, ⟨rfl, e', he', rfl⟩, rfl, rfl⟩ := hh
      exact ⟨rfl, e ++ e', by simp [encodeAll, he, he'], (List.append_assoc _ _ _).symm⟩
    · intro hh
      obtain ⟨hlen, e, he, rfl⟩ := hh
      cases xs with
      | nil => simp at hlen
      | cons x xs =>
        simp only [encodeAll, Option.bind_eq_bind, Option.bind_eq_some_iff, Option.some.injEq] at he
        obtain ⟨e₁, h₁, e₂, h₂, rfl⟩ := he
        exact ⟨x, e₂ ++ rest, ⟨e₁, h₁, List.append_assoc _ _ _⟩, xs, rest,
          ⟨by simpa using hlen, e₂, h₂, rfl⟩, rfl, rfl⟩

def seq (c : Codec α) : Codec (List α) where
  encode xs := do
    let e ← compact.encode xs.length
    let es ← c.encodeAll xs
    some (e ++ es)
  decode b := do
    let (n, b) ← compact.decode b
    c.decodeAll n b
  spec b xs rest := by
    simp only [Option.bind_eq_bind, Option.bind_eq_some_iff, Prod.exists, compact.spec,
      decodeAll_eq_some, Option.some.injEq]
    constructor
    · intro hh
      obtain ⟨_, _, ⟨e, he, rfl⟩, rfl, e', he', rfl⟩ := hh
      exact ⟨_, ⟨e, he, e', he', rfl⟩, (List.append_assoc _ _ _).symm⟩
    · intro hh
      obtain ⟨_, ⟨e, he, e', he', rfl⟩, rfl⟩ := hh
      exact ⟨_, _, ⟨e, he, List.append_assoc _ _ _⟩, rfl, e', he', rfl⟩

/-- `Option<T>`: a zero byte, or a one byte and the value. -/
def opt (c : Codec α) : Codec (Option α) where
  encode
    | none => some [0]
    | some a => (c.encode a).map (1 :: ·)
  decode
    | [] => none
    | t :: b =>
      if t = 0 then some (none, b)
      else if t = 1 then (c.decode b).map fun p => (some p.1, p.2)
      else none
  spec b a rest := by
    cases b with
    | nil => cases a <;> simp
    | cons t b =>
      by_cases h0 : t = 0
      · subst h0
        cases a <;> simp [eq_comm]
      · by_cases h1 : t = 1
        · subst h1
          cases a with
          | none => simp
          | some a => simp [c.spec]
        · cases a <;> simp [h0, h1]

/-- An encoding put together from two fails when one of them does. -/
theorem append_isSome {x y : Option Bytes} :
    (do
      let e ← x
      let e' ← y
      some (e ++ e')).isSome ↔ x.isSome ∧ y.isSome := by
  cases x <;> cases y <;> simp

theorem encodeAll_isSome (c : Codec α) {xs : List α} :
    (c.encodeAll xs).isSome ↔ ∀ x ∈ xs, (c.encode x).isSome := by
  induction xs with
  | nil => simp [encodeAll]
  | cons x xs ih =>
    rw [List.forall_mem_cons, ← ih, encodeAll]
    exact append_isSome

@[simp] theorem compact_encode_isSome {n : Nat} : (compact.encode n).isSome ↔ n < 2 ^ 32 := by
  simp [compact]

@[simp] theorem bytes_encode_isSome {v : Bytes} :
    (bytes.encode v).isSome ↔ v.length < 2 ^ 32 := by
  simp [bytes]

@[simp] theorem arr_encode_isSome {n : Nat} {a : Arr n} : ((arr n).encode a).isSome := rfl

@[simp] theorem uint_encode_isSome {k n : Nat} : ((uint k).encode n).isSome ↔ n < 256 ^ k := by
  simp [uint]

theorem bytes_encode_length {v e : Bytes} (h : bytes.encode v = some e) :
    e.length = compactLength v.length + v.length := by
  obtain ⟨c, hc, rfl⟩ := Option.map_eq_some_iff.mp h
  obtain ⟨-, hc⟩ := Option.ite_none_right_eq_some.mp hc
  rw [List.length_append, ← Option.some.inj hc, compactBytes_length]

theorem pair_encode_eq_some {c : Codec α} {d : Codec β} {x : α} {y : β} {b : Bytes} :
    (c.pair d).encode (x, y) = some b ↔
      ∃ e e', c.encode x = some e ∧ d.encode y = some e' ∧ e ++ e' = b := by
  simp only [pair, Option.bind_eq_bind, Option.bind_eq_some_iff, Option.some.injEq]
  constructor
  · intro h
    obtain ⟨e, he, e', he', hb⟩ := h
    exact ⟨e, e', he, he', hb⟩
  · intro h
    obtain ⟨e, e', he, he', hb⟩ := h
    exact ⟨e, he, e', he', hb⟩

@[simp] theorem str_encode_isSome {v : Str} :
    (str.encode v).isSome ↔ (asBytes v).length < 2 ^ 32 := bytes_encode_isSome

@[simp] theorem pair_encode_isSome (c : Codec α) (d : Codec β) {p : α × β} :
    ((c.pair d).encode p).isSome ↔ (c.encode p.1).isSome ∧ (d.encode p.2).isSome := by
  rw [pair]
  exact append_isSome

theorem seq_encode_isSome (c : Codec α) {xs : List α} :
    (c.seq.encode xs).isSome ↔ xs.length < 2 ^ 32 ∧ ∀ x ∈ xs, (c.encode x).isSome := by
  rw [← c.encodeAll_isSome, ← compact_encode_isSome]
  rw [seq]
  exact append_isSome

end Codec

end Scale
