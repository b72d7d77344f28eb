import RubyInlay.Annotate
import RubyInlay.Uri

/-! One request for hints. Its parameters come as they are sent; a request that names no Ruby
document has no hints, and one whose document cannot be read has none either. -/

namespace RubyInlay.Server

/-- Why a request is refused. -/
inductive RequestError where
  | documentNotAnObject
  | uriNotAText
  | malformedUri (error : UriError)
  deriving DecidableEq, Repr

/-- A document that the workspace can read or knows not to be readable. -/
inductive Stored where
  | readable (document : Document)
  | unreadable (reason : String)

/-- The documents by their URI, the latest first. -/
abbrev Workspace := List (String × Stored)

namespace Workspace

def put (w : Workspace) (uri : String) (stored : Stored) : Workspace :=
  (uri, stored) :: w

/-- The document under a URI, or why there is none to read. -/
def read (w : Workspace) (uri : String) : Except String Document :=
  match List.lookup uri w with
  | some (.readable document) => .ok document
  | some (.unreadable reason) => .error reason
  | none => .error ("no document " ++ uri)

end Workspace

/-- The URI of the document in question. What is not set counts as absent. -/
def requestedUri? : Json → Except RequestError (Option String)
  | .object params =>
    match Json.Entries.get? params "textDocument" with
    | none => .ok none
    | some (.object textDocument) =>
      match Json.Entries.get? textDocument "uri" with
      | none => .ok none
      | some (.text uri) => .ok (if uri = "" then none else some uri)
      | some value => if value.isSet then .error .uriNotAText else .ok none
    | some value => if value.isSet then .error .documentNotAnObject else .ok none
  | _ => .ok none

def requestedWindow? (params : Json) : Option Window :=
  (params.get? "range").bind Window.ofJson?

/-- The answer for a Ruby document. -/
def annotateStored (w : Workspace) (uri : String) (c : Collector) : Annotated :=
  match w.read uri with
  | .ok document => annotate document c
  | .error reason => ⟨[], [.requestFailed uri reason]⟩

/-- Answers a request under the settings in force. -/
def answer (w : Workspace) (settings : Settings) (params : Json) :
    Except RequestError Annotated :=
  match requestedUri? params with
  | .error e => .error e
  | .ok none => .ok ⟨[], []⟩
  | .ok (some uri) =>
    match namesRubyFile uri with
    | .error e => .error (.malformedUri e)
    | .ok false => .ok ⟨[], []⟩
    | .ok true => .ok (annotateStored w uri ⟨requestedWindow? params, settings⟩)

end RubyInlay.Server
