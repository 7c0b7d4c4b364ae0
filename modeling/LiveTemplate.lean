import LiveTemplate.Json.Reader
import LiveTemplate.Scenario.Preview
import LiveTemplate.Scenario.Run
import LiveTemplate.Proofs.Markup.Forest
import LiveTemplate.Proofs.Markup.Spelling
import LiveTemplate.Proofs.Markup.Nesting
import LiveTemplate.Proofs.Markup.Image
import LiveTemplate.Proofs.Markup.Skeleton
import LiveTemplate.Proofs.View.Planting
import LiveTemplate.Proofs.View.RoundTrip
import LiveTemplate.Proofs.World.Liveness
import LiveTemplate.Proofs.Reaction.Mirroring
import LiveTemplate.Proofs.Reaction.Firing
import LiveTemplate.Proofs.Reaction.Program
import LiveTemplate.Proofs.Reaction.Running
import LiveTemplate.Proofs.Reaction.Upkeep
import LiveTemplate.Proofs.View.Frame
import LiveTemplate.Proofs.Reaction.Keeping
import LiveTemplate.Proofs.Reaction.Commands
import LiveTemplate.Proofs.Reaction.UpToDate
import LiveTemplate.Proofs.View.Redrawing
import LiveTemplate.Proofs.View.Lasting
import LiveTemplate.Proofs.View.Arrangement
import LiveTemplate.Proofs.Reaction.Dispatching
import LiveTemplate.Proofs.Binding.Attaching
import LiveTemplate.Proofs.Binding.Compiling
import LiveTemplate.Proofs.Binding.Building
import LiveTemplate.Proofs.Binding.Consistency
import LiveTemplate.Proofs.Binding.Sites
import LiveTemplate.Proofs.Binding.Wiring
import LiveTemplate.Proofs.Binding.Walking
import LiveTemplate.Proofs.View.Steadiness
import LiveTemplate.Proofs.View.Framing
import LiveTemplate.Proofs.Binding.Picturing
import LiveTemplate.Proofs.Binding.Rebuilding
import LiveTemplate.Proofs.Binding.Ordering
import LiveTemplate.Proofs.Reaction.Happening
import LiveTemplate.Proofs.Binding.Coursing
import LiveTemplate.Proofs.Reaction.Silence
import LiveTemplate.Proofs.Binding.Settling
import LiveTemplate.Proofs.Binding.Silencing
import LiveTemplate.Proofs.Binding.Visiting
import LiveTemplate.Proofs.Binding.Ending
import LiveTemplate.Proofs.Binding.Labelling
import LiveTemplate.Proofs.Binding.Quoting
import LiveTemplate.Proofs.Binding.Escaping
import LiveTemplate.Proofs.View.Linking
import LiveTemplate.Proofs.Directive.Handling
import LiveTemplate.Proofs.Reaction.Standing
import LiveTemplate.Proofs.Binding.Hearing
import LiveTemplate.Proofs.Binding.Relaying
import LiveTemplate.Proofs.Binding.Wording
import LiveTemplate.Proofs.Binding.Lagging
import LiveTemplate.Proofs.View.Entangling
import LiveTemplate.Proofs.Reaction.Sameness
import LiveTemplate.Proofs.Binding.Failing
import LiveTemplate.Proofs.Markup.Decoding
import LiveTemplate.Proofs.Directive.Expressions
import LiveTemplate.Proofs.Directive.Forms
import LiveTemplate.Proofs.Reaction.Bubbling
import LiveTemplate.Proofs.Reaction.Tracking
import LiveTemplate.Proofs.Store.Enlisting
import LiveTemplate.Proofs.Reaction.Recounting
import LiveTemplate.Proofs.Reaction.Rounds
import LiveTemplate.Proofs.View.Recovery
import LiveTemplate.Proofs.View.Surroundings
import LiveTemplate.Proofs.Markup.Progress
import LiveTemplate.Proofs.Store.Circles
import LiveTemplate.Proofs.Reaction.Circling
import LiveTemplate.Proofs.View.Filling
import LiveTemplate.Proofs.Reaction.Entering
