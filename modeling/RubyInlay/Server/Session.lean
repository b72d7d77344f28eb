import RubyInlay.Server.Capabilities
import RubyInlay.Server.Request

/-! A session with an editor: the settings, the documents, and whether requests are handled. The
handler comes and goes with the settings at the time it is set up; each request reads the settings
anew. -/

namespace RubyInlay.Server

structure Session where
  settings : Settings
  workspace : Workspace
  /-- The handler for requests is set up. -/
  handles : Bool

inductive Step where
  | settings (settings : Settings)
  | document (uri : String) (stored : Stored)
  | defaults
  | setUp
  | request (params : Json)
  | experimental (announced : Bool)
  | amend (available : Bool) (caps : Capabilities) (times : Nat)

inductive Reply where
  | done
  | defaults (settings : Json)
  | methods (names : List String)
  | annotated (result : Annotated)
  | refused (error : RequestError)
  | noHandler
  | experimental (caps : Capabilities) (log : Log)
  | amended (outcomes : List Bool) (caps : Capabilities) (levels : List Level)

/-- The method that the handler answers. -/
def inlayHintMethod : String := "textDocument/inlayHint"

/-- The settings that the program declares for itself. -/
def defaultSettings : Json :=
  .object [("plugins", .object [("ruby_inlay_hints", .object Settings.standard)])]

namespace Session

def start : Session := ⟨.empty, [], false⟩

/-- What a step leaves behind. -/
def next (s : Session) : Step → Session
  | .settings settings => { s with settings }
  | .document uri stored => { s with workspace := s.workspace.put uri stored }
  | .setUp => { s with handles := s.settings.offersHints }
  | _ => s

def reply (s : Session) : Step → Reply
  | .settings _ => .done
  | .document _ _ => .done
  | .defaults => .defaults defaultSettings
  | .setUp => .methods (if s.settings.offersHints then [inlayHintMethod] else [])
  | .request params =>
    if s.handles then
      match answer s.workspace s.settings params with
      | .ok result => .annotated result
      | .error e => .refused e
    else .noHandler
  | .experimental announced =>
    let (caps, log) := Server.experimental announced s.settings
    .experimental caps log
  | .amend available caps times =>
    let (outcomes, announcement) := Announcement.amendTimes available times ⟨caps, 0⟩
    .amended outcomes announcement.capabilities (outcomes.map amendmentLevel)

/-- The replies to a run of steps, in order. -/
def replies (s : Session) : List Step → List Reply
  | [] => []
  | step :: steps => s.reply step :: (s.next step).replies steps

@[simp] theorem replies_nil (s : Session) : s.replies [] = [] := rfl

@[simp] theorem replies_cons (s : Session) (step : Step) (steps : List Step) :
    s.replies (step :: steps) = s.reply step :: (s.next step).replies steps := rfl

end Session

end RubyInlay.Server
