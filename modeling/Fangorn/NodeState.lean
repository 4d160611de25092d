import Fangorn.DocStore

/-! The replicated state of a node (`State` in `types.rs`): the config and the
hints of the committee, as announcements bring them in. -/

namespace Fangorn

open Rust

/-- `deserialize_compressed` of the two kinds of announcements that count. -/
structure StateLib (Config PublicKey : Type) where
  config : Bytes → Option Config
  hint : Bytes → Option PublicKey

structure State (Config PublicKey : Type) where
  config : Option Config
  hints : Option (List PublicKey)
  deriving DecidableEq, Repr

namespace State

variable {Config PublicKey : Type}

def empty : State Config PublicKey := ⟨none, none⟩

def hintList (s : State Config PublicKey) : List PublicKey := s.hints.getD []

variable (lib : StateLib Config PublicKey)

/-- Data that does not deserialise is a panic. -/
def update (announcement : Announcement) (s : State Config PublicKey) :
    Outcome Unit (State Config PublicKey) :=
  match announcement.tag with
  | .config => do
    let config ← .expect (lib.config announcement.data)
    .ok { s with config := some config }
  | .hint => do
    let hint ← .expect (lib.hint announcement.data)
    match s.hints with
    | some hints => .ok { s with hints := some (hints ++ [hint]) }
    | none => .ok { s with hints := some [hint] }
  | _ => .ok s

variable {lib} {announcement : Announcement} {s s' : State Config PublicKey}

theorem update_hint {hint : PublicKey} (htag : announcement.tag = .hint)
    (hdata : lib.hint announcement.data = some hint) :
    update lib announcement s = .ok { s with hints := some (s.hintList ++ [hint]) } := by
  cases hh : s.hints with
  | none => simp [update, htag, hdata, hh, hintList, Outcome.expect]
  | some hints => simp [update, htag, hdata, hh, hintList, Outcome.expect]

theorem update_config {config : Config} (htag : announcement.tag = .config)
    (hdata : lib.config announcement.data = some config) :
    update lib announcement s = .ok { s with config := some config } := by
  simp [update, htag, hdata, Outcome.expect]

theorem update_other (hconfig : announcement.tag ≠ .config) (hhint : announcement.tag ≠ .hint) :
    update lib announcement s = .ok s := by
  unfold update
  cases h : announcement.tag with
  | config => exact absurd h hconfig
  | hint => exact absurd h hhint
  | doc => rfl
  | systemKeys => rfl
  | decryptionRequest => rfl

variable (lib) in
def hintOf (announcement : Announcement) : Option PublicKey :=
  if announcement.tag = .hint then lib.hint announcement.data else none

/-- Hints are only ever added, at the end. -/
theorem update_hintList (h : update lib announcement s = .ok s') :
    s'.hintList = s.hintList ++ (hintOf lib announcement).toList := by
  by_cases hhint : announcement.tag = .hint
  · cases hdata : lib.hint announcement.data with
    | none => simp [update, hhint, hdata, Outcome.expect] at h
    | some hint =>
      rw [update_hint hhint hdata] at h
      obtain rfl := Outcome.ok.inj h
      simp [hintOf, hhint, hdata, hintList]
  · have hnone : hintOf lib announcement = none := if_neg hhint
    rw [hnone, Option.toList_none, List.append_nil]
    by_cases hconfig : announcement.tag = .config
    · cases hdata : lib.config announcement.data with
      | none => simp [update, hconfig, hdata, Outcome.expect] at h
      | some config =>
        rw [update_config hconfig hdata] at h
        obtain rfl := Outcome.ok.inj h
        rfl
    · rw [update_other hconfig hhint] at h
      obtain rfl := Outcome.ok.inj h
      rfl

end State

end Fangorn
