import RubyInlay.Server.Capabilities

/-! How often a server is amended makes no difference. Each amendment goes over what the ones before
it have left, and from the second on it finds the provider's key taken. Main statement: an amended
server tells its own capabilities, with the provider added if the key was free, and attempts on a
server that is not there change nothing. -/

namespace RubyInlay.Server

open Json (Entries)

variable {base : Capabilities}

/-- What a server with the capabilities `base` tells when it has been amended: these, and behind them
the provider if they have nothing under its key. -/
structure Completes (base own : Capabilities) : Prop where
  added : own = base ++ [(providerKey, provider)] ↔ base.get? providerKey = none
  kept : ∀ held, base.get? providerKey = some held → own = base
  value : own.get? providerKey = some ((base.get? providerKey).getD provider)
  others : ∀ key, key ≠ providerKey → own.get? key = base.get? key

theorem withProvider_eq_append_iff :
    withProvider base = base ++ [(providerKey, provider)] ↔ base.get? providerKey = none := by
  constructor
  · intro h
    cases hbase : base.get? providerKey with
    | none => rfl
    | some held =>
      rw [withProvider, Entries.get?_addMissing_of_some hbase] at h
      have hlength := congrArg List.length h
      simp at hlength
  · exact Entries.addMissing_of_none

theorem completes_withProvider (base : Capabilities) : Completes base (withProvider base) where
  added := withProvider_eq_append_iff
  kept _ := Entries.get?_addMissing_of_some
  value := Entries.get?_addMissing_self base providerKey provider
  others _ := Entries.get?_addMissing_of_ne

/-! ### Amending again -/

/-- A second amendment finds what the first has added. -/
theorem withProvider_withProvider (base : Capabilities) :
    withProvider (withProvider base) = withProvider base :=
  Entries.get?_addMissing_of_some (Entries.get?_addMissing_self base providerKey provider)

theorem repeat_withProvider (n : Nat) (base : Capabilities) :
    Nat.repeat withProvider (n + 1) base = withProvider base := by
  induction n with
  | zero => rfl
  | succ n ih => rw [Nat.repeat, ih, withProvider_withProvider]

namespace Announcement

theorem capabilities_of_amended {a : Announcement} (h : 0 < a.amended) :
    a.capabilities = withProvider a.base := by
  obtain ⟨n, hn⟩ := Nat.exists_eq_succ_of_ne_zero (Nat.ne_of_gt h)
  rw [capabilities, hn, repeat_withProvider]

theorem amendTimes_available (n : Nat) (a : Announcement) :
    amendTimes true n a = (List.replicate n true, { a with amended := a.amended + n }) := by
  induction n generalizing a with
  | zero => rfl
  | succ n ih =>
    simp only [amendTimes, amend, if_true, ih, List.replicate_succ]
    rw [Nat.add_assoc, Nat.add_comm 1 n]

theorem amendTimes_unavailable (n : Nat) (a : Announcement) :
    amendTimes false n a = (List.replicate n false, a) := by
  induction n generalizing a with
  | zero => rfl
  | succ n ih => simp [amendTimes, amend, ih, List.replicate_succ]

end Announcement

/-- However often a server is amended, and whatever has been done to it before, every amendment
succeeds and in the end it tells its capabilities with the provider. Attempts on a server that is not
there all fail and leave what it tells as it was. -/
theorem capabilities_amended (a : Announcement) {n : Nat} (h : 0 < n) :
    (∃ a', a.amendTimes true n = (List.replicate n true, a') ∧
      a'.base = a.base ∧ Completes a.base a'.capabilities) ∧
    ∃ a', a.amendTimes false n = (List.replicate n false, a') ∧
      a'.base = a.base ∧ a'.capabilities = a.capabilities := by
  refine ⟨⟨_, Announcement.amendTimes_available n a, rfl, ?_⟩,
    a, Announcement.amendTimes_unavailable n a, rfl, rfl⟩
  have hamended : 0 < a.amended + n := Nat.add_pos_right a.amended h
  rw [Announcement.capabilities_of_amended hamended]
  exact completes_withProvider a.base

/-! A server that says `null` for its provider still says so when it has been amended three times. -/

def decliningProvider : Capabilities := [(providerKey, .null), ("hoverProvider", .bool true)]

theorem null_provider_kept :
    0 < 3 ∧ ∃ a', Announcement.amendTimes true 3 ⟨decliningProvider, 0⟩ =
      ([true, true, true], a') ∧ a'.capabilities = decliningProvider := by
  obtain ⟨⟨a', hreply, -, hcompletes⟩, -⟩ :=
    capabilities_amended ⟨decliningProvider, 0⟩ (show 0 < 3 by decide)
  exact ⟨by decide, a', hreply, hcompletes.kept .null rfl⟩

end RubyInlay.Server
