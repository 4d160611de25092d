import Fangorn.GadgetRegistry
import Fangorn.Lib.Hex

/-! Witnesses on their way from the command line to the worker: the parsing in
`handle_decrypt` (`crypto/cipher.rs`) and `encode_witnesses`
(`crypto/decrypt.rs`). -/

namespace Fangorn

open Rust Scale

def parseWitnesses (witnessString : Str) : List Str := (split [','] (trim witnessString)).map trim

/-- No value where the encoder panics. -/
def encodeWitnesses (witnesses : List Str) : Option Bytes :=
  (Codec.bytes.seq.encode (witnesses.map asBytes)).map Hex.encode

def witnessBlob (witnessString : Str) : Option Bytes :=
  (encodeWitnesses (parseWitnesses witnessString)).bind Hex.decode

theorem witnessBlob_eq (w : Str) :
    witnessBlob w = Codec.bytes.seq.encode ((parseWitnesses w).map asBytes) := by
  unfold witnessBlob encodeWitnesses
  cases Codec.bytes.seq.encode ((parseWitnesses w).map asBytes) <;> simp

theorem decodeWitnesses_blob {w : Str} {blob : Bytes} (h : witnessBlob w = some blob) :
    GadgetRegistry.decodeWitnesses blob = some ((parseWitnesses w).map asBytes) := by
  rw [witnessBlob_eq] at h
  rw [GadgetRegistry.decodeWitnesses, Codec.decode_encode _ h]
  rfl

theorem witnessBlob_isSome {w : Str} : (witnessBlob w).isSome ↔
    (parseWitnesses w).length < 2 ^ 32 ∧ ∀ x ∈ parseWitnesses w, (asBytes x).length < 2 ^ 32 := by
  rw [witnessBlob_eq, Codec.seq_encode_isSome]
  simp

theorem parseWitnesses_eq_singleton {w x : Str} :
    parseWitnesses w = [x] ↔ trim w = x ∧ ',' ∉ x := by
  rw [parseWitnesses, List.map_eq_singleton_iff]
  simp only [split_eq_singleton (List.cons_ne_nil _ _), List.singleton_infix_iff]
  constructor
  · intro hh
    obtain ⟨_, ⟨rfl, hc⟩, rfl⟩ := hh
    rw [trim_trim]
    exact ⟨rfl, hc⟩
  · intro hh
    obtain ⟨rfl, hc⟩ := hh
    exact ⟨_, ⟨rfl, hc⟩, trim_trim w⟩

end Fangorn
