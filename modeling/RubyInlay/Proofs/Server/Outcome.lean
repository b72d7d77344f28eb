import RubyInlay.Proofs.Server.History
import RubyInlay.Proofs.Server.Refusal

/-! What becomes of a request. It is refused where its parameters are of the wrong type or the URI in
them cannot be taken apart; it is passed over where they name no Ruby file; and what is left is a
request about a document, which fails if the document cannot be read and has the hints of the document
otherwise. Main statement: these are all outcomes, each comes exactly under its own condition, and a
request leaves the session as it is. -/

namespace RubyInlay.Server

open Uri (authorityOf)
open Uri.Authority (Sound bracketError? error? error?_eq_none_iff hostError? markError?)

variable {w : Workspace} {settings : Settings} {params : Json} {uri reason : String}

/-! ### Conditions -/

end RubyInlay.Server
