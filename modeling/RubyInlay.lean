import RubyInlay.Proofs.Outline.Isolation
import RubyInlay.Proofs.Outline.Precedence
import RubyInlay.Proofs.Outline.Skeleton
import RubyInlay.Proofs.Position
import RubyInlay.Proofs.Server.Amendment
import RubyInlay.Proofs.Server.Announcement
import RubyInlay.Proofs.Server.History
import RubyInlay.Proofs.Server.Refusal
import RubyInlay.Proofs.SinglePass
import RubyInlay.Proofs.Tour
import RubyInlay.Proofs.Window
import RubyInlay.Proofs.Workbench
import RubyInlay.Proofs.Range
import RubyInlay.Proofs.Features
import RubyInlay.Proofs.Source.Slice
import RubyInlay.Proofs.Column
import RubyInlay.Proofs.Source.Moved
import RubyInlay.Proofs.Moved
import RubyInlay.Proofs.Source.NamedGroup
import RubyInlay.Proofs.Outline.Declaration
import RubyInlay.Proofs.Server.Outcome
import RubyInlay.Proofs.Uri.Encoding
import RubyInlay.Proofs.Source.GroupPlaces
import RubyInlay.Proofs.Outline.ScopeStack
import RubyInlay.Proofs.Double
