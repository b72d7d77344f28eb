import RubyInlay.Log
import RubyInlay.Settings

/-! How an editor learns that hints can be asked for: through the capabilities that the server
announces, or else through the experimental ones. -/

namespace RubyInlay.Server

/-- What a server says it can do. -/
abbrev Capabilities := Json.Entries

def providerKey : String := "inlayHintProvider"

def provider : Json := .object [("resolveProvider", .bool false)]

def withProvider (caps : Capabilities) : Capabilities :=
  caps.addMissing providerKey provider

/-- The announcement of a server, amended a number of times. -/
structure Announcement where
  base : Capabilities
  amended : Nat

namespace Announcement

def capabilities (a : Announcement) : Capabilities :=
  Nat.repeat withProvider a.amended a.base

/-- Amends the announcement if the server is there to be amended, and says whether it was. -/
def amend (available : Bool) (a : Announcement) : Bool × Announcement :=
  if available then (true, { a with amended := a.amended + 1 }) else (false, a)

def amendTimes (available : Bool) : Nat → Announcement → List Bool × Announcement
  | 0, a => ([], a)
  | n + 1, a =>
    let (done, a) := a.amend available
    let (later, a) := amendTimes available n a
    (done :: later, a)

end Announcement

/-- The level at which an attempt to amend is logged. -/
def amendmentLevel (done : Bool) : Level :=
  if done then .info else .warning

/-- The experimental capabilities. They hold the provider only where the server's own do not, and
where the settings offer hints. -/
def experimental (announced : Bool) (settings : Settings) : Capabilities × Log :=
  if announced || !settings.offersHints then ([], [])
  else ([(providerKey, provider)], [.announced])

end RubyInlay.Server
