import Patchwork.Command.Folder
import Patchwork.Main
import Patchwork.Proofs.Arranging
import Patchwork.Proofs.Ceiling
import Patchwork.Proofs.Command.Delivery
import Patchwork.Proofs.Commuting
import Patchwork.Proofs.Effects
import Patchwork.Proofs.Layout.Acceptance
import Patchwork.Proofs.Layout.Anchoring
import Patchwork.Proofs.Layout.Containment
import Patchwork.Proofs.Layout.Direction
import Patchwork.Proofs.Layout.Framing
import Patchwork.Proofs.Layout.Grid
import Patchwork.Proofs.Layout.Partition
import Patchwork.Proofs.Layout.Picture
import Patchwork.Proofs.Layout.Pushing
import Patchwork.Proofs.Limits
import Patchwork.Proofs.Omitting
import Patchwork.Proofs.Output.Data
import Patchwork.Proofs.Output.Drawing
import Patchwork.Proofs.Recursion
import Patchwork.Proofs.Remembering
import Patchwork.Proofs.Renaming
import Patchwork.Proofs.Scoping
import Patchwork.Proofs.Source.Depth
import Patchwork.Proofs.Source.Forms
import Patchwork.Proofs.Source.Gaps
import Patchwork.Proofs.Source.LongestMatch
import Patchwork.Proofs.Source.Offense
import Patchwork.Proofs.Source.Placing
import Patchwork.Proofs.Source.RoundTrip
import Patchwork.Proofs.Source.Spacing
import Patchwork.Proofs.Substitution
import Patchwork.Proofs.WellMade
import Patchwork.Proofs.WellScoped
import Patchwork.Scalar.Exact
