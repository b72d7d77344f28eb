import RubyInlay.Proofs.Server.History

/-! What a client is told. Three replies of a session decide it: the capabilities of the server that
has been amended, the experimental capabilities, and the methods with a handler. The settings have a
say in the last two of them and none in the first. Main statement: the provider is never announced
twice, and it is announced where its requests have a handler, and only there unless the server has
been amended under settings that decline hints. -/

namespace RubyInlay.Server

variable {s : Session} {settings : Settings} {base : Capabilities} {available : Bool}

/-- What a client learns from a session. -/
structure Told where
  own : Capabilities
  experimental : Capabilities
  methods : List String

/-- A session tells the capabilities of the server, amended if the server is there to be amended;
then the experimental ones, which know whether that was done; and the methods with a handler. -/
inductive Session.Tells (s : Session) (base : Capabilities) (available : Bool) : Told → Prop
  | told {amended : Bool} {own experimental : Capabilities} {methods : List String}
      {levels : List Level} {log : Log}
      (hown : s.reply (.amend available base 1) = .amended [amended] own levels)
      (hexperimental : s.reply (.experimental amended) = .experimental experimental log)
      (hmethods : s.reply .setUp = .methods methods) :
      Tells s base available ⟨own, experimental, methods⟩

/-- The provider is among some capabilities. -/
def Announces (caps : Capabilities) : Prop :=
  ∃ value, caps.get? providerKey = some value

namespace Told

/-- Requests for hints have a handler. -/
def Handles (t : Told) : Prop :=
  inlayHintMethod ∈ t.methods

/-- The provider is announced, in one place, where requests have a handler, and nowhere where
nothing is handled. -/
def Agrees (t : Told) : Prop :=
  (t.Handles → Xor (Announces t.own) (Announces t.experimental)) ∧
    (t.methods = [] → ¬ Announces t.own ∧ ¬ Announces t.experimental)

end Told

/-! ### Replies -/

theorem reply_amend_once (s : Session) (available : Bool) (base : Capabilities) :
    s.reply (.amend available base 1) =
      .amended [available] (if available then withProvider base else base)
        [amendmentLevel available] := by
  cases available <;> rfl

/-- What a session tells, put together from its three replies. -/
def Session.told (s : Session) (base : Capabilities) (available : Bool) : Told where
  own := if available then withProvider base else base
  experimental := (experimental available s.settings).1
  methods := if s.settings.offersHints then [inlayHintMethod] else []

theorem tells_iff {t : Told} : s.Tells base available t ↔ t = s.told base available := by
  constructor
  · rintro ⟨hown, hexperimental, hmethods⟩
    rw [reply_amend_once] at hown
    cases hown
    cases hexperimental
    cases hmethods
    rfl
  · rintro rfl
    exact .told (reply_amend_once s available base) rfl rfl

/-! ### Announcements -/

/-- The server's own capabilities announce the provider once they have been amended, whatever the
settings are. -/
theorem announces_own_iff (h : base.get? providerKey = none) :
    Announces (s.told base available).own ↔ available := by
  cases available with
  | true =>
    have hadded : (withProvider base).get? providerKey = _ :=
      Json.Entries.get?_addMissing_self base providerKey provider
    exact iff_of_true ⟨_, hadded⟩ rfl
  | false =>
    refine iff_of_false ?_ Bool.false_ne_true
    rintro ⟨value, hvalue⟩
    cases h.symm.trans hvalue

/-- The experimental ones announce it if the server has not been amended and hints are offered. -/
theorem announces_experimental_iff :
    Announces (s.told base available).experimental ↔ available = false ∧ Offered s.settings := by
  rw [← offersHints_iff, Session.told, experimental]
  cases available <;> cases s.settings.offersHints <;> simp [Announces, Json.Entries.get?]

theorem handles_told_iff : (s.told base available).Handles ↔ Offered s.settings := by
  rw [← offersHints_iff, Told.Handles, Session.told]
  cases s.settings.offersHints <;> simp

theorem methods_told_eq_nil_iff :
    (s.told base available).methods = [] ↔ ¬ Offered s.settings := by
  rw [← offersHints_iff, Session.told]
  cases s.settings.offersHints <;> simp

/-! ### Agreement -/

theorem not_announced_twice (h : base.get? providerKey = none) :
    ¬ (Announces (s.told base available).own ∧ Announces (s.told base available).experimental) := by
  rintro ⟨hown, hexperimental⟩
  have hamended : available = true := (announces_own_iff h).1 hown
  have hnot : available = false := (announces_experimental_iff.1 hexperimental).1
  cases hamended.symm.trans hnot

/-- Where hints are offered, the experimental capabilities step in for a server that could not be
amended. -/
theorem announced_once_of_offered (h : base.get? providerKey = none) (ho : Offered s.settings) :
    Xor (Announces (s.told base available).own)
      (Announces (s.told base available).experimental) := by
  rw [xor_iff_iff_not, announces_own_iff h, announces_experimental_iff]
  simp [ho]

/-- Where hints are declined, only an amended server announces anything. -/
theorem announced_of_declined (h : base.get? providerKey = none) (hd : ¬ Offered s.settings) :
    ¬ Announces (s.told base available).experimental ∧
      (Announces (s.told base available).own ↔ available) :=
  ⟨fun he => hd (announces_experimental_iff.1 he).2, announces_own_iff h⟩

theorem agrees_told_iff (h : base.get? providerKey = none) :
    (s.told base available).Agrees ↔ Offered s.settings ∨ available = false := by
  rw [Told.Agrees, handles_told_iff, methods_told_eq_nil_iff]
  by_cases ho : Offered s.settings
  · exact iff_of_true ⟨fun _ => announced_once_of_offered h ho, fun hd => absurd ho hd⟩ (.inl ho)
  · have hexperimental : ¬ Announces (s.told base available).experimental :=
      (announced_of_declined h ho).1
    rw [announces_own_iff h]
    simp [ho, hexperimental]

/-- The provider is never announced twice, and once where requests have a handler. What is announced
agrees with what is handled exactly if the settings offer hints or the server could not be amended;
otherwise the server announces a provider without a handler. -/
theorem announcement_agrees_iff (s : Session) (base : Capabilities) (available : Bool)
    (h : base.get? providerKey = none) :
    ∃ t, s.Tells base available t ∧
      (t.Agrees ↔ Offered s.settings ∨ available = false) ∧
      ¬ (Announces t.own ∧ Announces t.experimental) ∧
      (t.Handles ∨ t.methods = []) ∧
      (t.Handles → Xor (Announces t.own) (Announces t.experimental)) ∧
      (t.methods = [] → ¬ Announces t.experimental ∧ (Announces t.own ↔ available)) := by
  refine ⟨s.told base available, tells_iff.2 rfl, agrees_told_iff h, not_announced_twice h, ?_,
    fun hs => announced_once_of_offered h (handles_told_iff.1 hs),
    fun hm => announced_of_declined h (methods_told_eq_nil_iff.1 hm)⟩
  rw [handles_told_iff, methods_told_eq_nil_iff]
  exact em _

/-! A server that shows documentation is amended, first for a user who has chosen nothing and then
for one who declines hints. -/

def documenting : Capabilities := [("hoverProvider", .bool true)]

def declined : Session := ⟨⟨[(Settings.enabledKey, .bool false)]⟩, [], false⟩

theorem offered_provider_announced_once :
    documenting.get? providerKey = none ∧
    ∃ t, Session.start.Tells documenting true t ∧ t.Agrees ∧
      t.own = documenting ++ [(providerKey, provider)] ∧ t.experimental = [] ∧
      t.methods = [inlayHintMethod] := by
  obtain ⟨t, ht, hagrees, -⟩ := announcement_agrees_iff Session.start documenting true rfl
  have hoffered : Offered Session.start.settings := offersHints_iff.1 rfl
  refine ⟨rfl, t, ht, hagrees.2 (.inl hoffered), ?_⟩
  rw [tells_iff.1 ht]
  exact ⟨rfl, rfl, rfl⟩

theorem declined_provider_still_announced :
    documenting.get? providerKey = none ∧
    ∃ t, declined.Tells documenting true t ∧ t.methods = [] ∧ Announces t.own ∧ ¬ t.Agrees := by
  refine ⟨rfl, declined.told documenting true, tells_iff.2 rfl, rfl,
    (announces_own_iff rfl).2 rfl, fun ha => ?_⟩
  exact (ha.2 rfl).1 ((announces_own_iff rfl).2 rfl)

end RubyInlay.Server
