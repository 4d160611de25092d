import Fangorn.Lib.Text

/-! Hexadecimal text, kept as its ASCII bytes: two digits for each byte, lower
case when written, either case when read. -/

namespace Hex

open Rust

def digit (n : Nat) : UInt8 := UInt8.ofNat (if n < 10 then 48 + n else 87 + n)

def value (d : UInt8) : Option Nat :=
  let n := d.toNat
  if 48 ≤ n ∧ n ≤ 57 then some (n - 48)
  else if 97 ≤ n ∧ n ≤ 102 then some (n - 87)
  else if 65 ≤ n ∧ n ≤ 70 then some (n - 55)
  else none

def encode : Bytes → Bytes
  | [] => []
  | b :: bs => digit (b.toNat / 16) :: digit (b.toNat % 16) :: encode bs

def decode : Bytes → Option Bytes
  | [] => some []
  | [_] => none
  | a :: b :: ds => do
    let h ← value a
    let l ← value b
    let bs ← decode ds
    some (UInt8.ofNat (16 * h + l) :: bs)

/-- The digits as characters. -/
def text (b : Bytes) : Str := (encode b).map fun d => Char.ofNat d.toNat

theorem value_digit {n : Nat} (h : n < 16) : value (digit n) = some n := by
  have hv : (digit n).toNat = if n < 10 then 48 + n else 87 + n := by
    rw [digit, UInt8.toNat_ofNat']
    split_ifs <;> omega
  unfold value
  simp only [hv]
  split_ifs <;> first | omega | (congr 1; omega)

@[simp] theorem decode_encode (b : Bytes) : decode (encode b) = some b := by
  induction b with
  | nil => rfl
  | cons x b ih =>
    have hx := x.toNat_lt
    have hval : UInt8.ofNat (16 * (x.toNat / 16) + x.toNat % 16) = x := by
      apply UInt8.toNat_inj.mp
      rw [UInt8.toNat_ofNat', Nat.div_add_mod, Nat.mod_eq_of_lt hx]
    rw [encode, decode, value_digit (by omega), value_digit (by omega), ih]
    simp only [Option.bind_eq_bind, Option.bind_some, hval]

theorem exists_digit {b : Bytes} {d : UInt8} (h : d ∈ encode b) : ∃ n < 16, d = digit n := by
  induction b with
  | nil => simp [encode] at h
  | cons x b ih =>
    have hx := x.toNat_lt
    rw [encode, List.mem_cons, List.mem_cons] at h
    rcases h with rfl | rfl | h
    · exact ⟨x.toNat / 16, by omega, rfl⟩
    · exact ⟨x.toNat % 16, by omega, rfl⟩
    · exact ih h

theorem utf8EncodeChar_digit {n : Nat} (h : n < 16) :
    String.utf8EncodeChar (Char.ofNat (digit n).toNat) = [digit n] := by
  have hall : ∀ n : Fin 16,
    String.utf8EncodeChar (Char.ofNat (digit n).toNat) = [digit n] := by decide
  exact hall ⟨n, h⟩

theorem asBytes_text (b : Bytes) : asBytes (text b) = encode b := by
  have hall : ∀ ds : Bytes, (∀ d ∈ ds, ∃ n < 16, d = digit n) →
      asBytes (ds.map fun d => Char.ofNat d.toNat) = ds := by
    intro ds hds
    induction ds with
    | nil => rfl
    | cons d ds ih =>
      rw [List.forall_mem_cons] at hds
      obtain ⟨⟨n, hn, rfl⟩, hrest⟩ := hds
      rw [List.map_cons, asBytes_cons, utf8EncodeChar_digit hn, ih hrest, List.singleton_append]
  exact hall _ fun d hd => exists_digit hd

/-- Of a text of digits that stops early, the whole bytes are read. -/
theorem decode_prefix {c b d : Bytes} (h : c <+: encode b) (hd : decode c = some d) : d <+: b := by
  induction c using decode.induct generalizing b d with
  | case1 =>
    obtain rfl : [] = d := Option.some.inj hd
    exact List.nil_prefix
  | case2 x => cases hd
  | case3 x y c ih =>
    cases b with
    | nil => cases List.prefix_nil.mp h
    | cons z b =>
      rw [encode, List.cons_prefix_cons, List.cons_prefix_cons] at h
      obtain ⟨rfl, rfl, h⟩ := h
      have hz := z.toNat_lt
      have hval : UInt8.ofNat (16 * (z.toNat / 16) + z.toNat % 16) = z := by
        apply UInt8.toNat_inj.mp
        rw [UInt8.toNat_ofNat', Nat.div_add_mod, Nat.mod_eq_of_lt hz]
      rw [decode, value_digit (by omega), value_digit (by omega)] at hd
      simp only [Option.bind_eq_bind, Option.bind_some, Option.bind_eq_some_iff,
        Option.some.injEq, hval] at hd
      obtain ⟨e, he, rfl⟩ := hd
      exact List.cons_prefix_cons.mpr ⟨rfl, ih h he⟩

theorem zero_notMem_of_decode {c d : Bytes} (h : decode c = some d) : 0 ∉ c := by
  have hzero : value 0 = none := by decide
  induction c using decode.induct generalizing d with
  | case1 => exact List.not_mem_nil
  | case2 x => cases h
  | case3 x y c ih =>
    simp only [decode, Option.bind_eq_bind, Option.bind_eq_some_iff] at h
    obtain ⟨hx, hvx, hy, hvy, r, hr, -⟩ := h
    rw [List.mem_cons, List.mem_cons]
    rintro (rfl | rfl | hmem)
    · cases hzero.symm.trans hvx
    · cases hzero.symm.trans hvy
    · exact ih hr hmem

theorem length_of_decode {d b : Bytes} (h : decode d = some b) : d.length = 2 * b.length := by
  induction d using decode.induct generalizing b with
  | case1 => simp_all [decode]
  | case2 => simp [decode] at h
  | case3 x y d ih =>
    simp only [decode, Option.bind_eq_bind, Option.bind_eq_some_iff, Option.some.injEq] at h
    obtain ⟨_, _, _, _, r, hr, rfl⟩ := h
    simp only [List.length_cons, ih hr]
    omega

end Hex
