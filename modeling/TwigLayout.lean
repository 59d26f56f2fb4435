import TwigLayout.CommandLine
import TwigLayout.Main
import TwigLayout.Proofs.Placeholder.Token
import TwigLayout.Proofs.Logged
import TwigLayout.Proofs.Placeholder.Parts
import TwigLayout.Proofs.Placeholder.Restore
import TwigLayout.Proofs.Placeholder.Region
import TwigLayout.Proofs.Placeholder.RoundTrip
import TwigLayout.Proofs.Placeholder.Overlap
import TwigLayout.Proofs.Pipeline
import TwigLayout.Proofs.Reflow.Hash
import TwigLayout.Proofs.Reflow.Merge
import TwigLayout.Proofs.Reflow.Route
import TwigLayout.Proofs.Reflow.Component
import TwigLayout.Proofs.Reflow.Edits
import TwigLayout.Proofs.Text.Blank
import TwigLayout.Proofs.Text.Lines
import TwigLayout.Proofs.Text.Rescan
import TwigLayout.Proofs.Content.Hash
import TwigLayout.Proofs.Content.Merge
import TwigLayout.Proofs.Content.Route
import TwigLayout.Proofs.Spacing.Basic
import TwigLayout.Proofs.Spacing.Literal
import TwigLayout.Proofs.Spacing.Component
import TwigLayout.Proofs.Spacing.Shielded
import TwigLayout.Proofs.Spacing.Visible
import TwigLayout.Proofs.Comments
import TwigLayout.Proofs.Stable.Hash
import TwigLayout.Proofs.Stable.Merge
import TwigLayout.Proofs.Stable.Route
import TwigLayout.Proofs.Stable.Attribute
import TwigLayout.Proofs.Stable.Tight
import TwigLayout.Proofs.Stable.Beside
import TwigLayout.Proofs.Stable.LineEnd
import TwigLayout.Proofs.Stable.Reflow
import TwigLayout.Proofs.Stable.Component
import TwigLayout.Proofs.Terminator.Text
import TwigLayout.Proofs.Terminator.Reflow
import TwigLayout.Proofs.Terminator.Paired
import TwigLayout.Proofs.Terminator.Engine
import TwigLayout.Proofs.Run.Tree
import TwigLayout.Proofs.Run.Write
import TwigLayout.Proofs.Run.Files
import TwigLayout.Proofs.Run.Agreement
import TwigLayout.Proofs.Run.Separation
import TwigLayout.Proofs.Stable.Twice
import TwigLayout.Proofs.Placeholder.Leak
import TwigLayout.Proofs.External.Overrides
import TwigLayout.Proofs.Run.Atomic
import TwigLayout.Proofs.External.Options
import TwigLayout.Proofs.External.Stage
import TwigLayout.Proofs.Content.Component
import TwigLayout.Proofs.Content.Tail
import TwigLayout.Proofs.Content.Syntax
import TwigLayout.Proofs.Placeholder.Substitution
import TwigLayout.Proofs.Content.Keys
import TwigLayout.Proofs.Placeholder.Inline
import TwigLayout.Proofs.Placeholder.Concealed
import TwigLayout.Proofs.Lookup
import TwigLayout.Proofs.External.Globs
import TwigLayout.Proofs.External.Resolution
import TwigLayout.Proofs.External.Readings
import TwigLayout.Proofs.Placeholder.Draws
import TwigLayout.Proofs.Settings
import TwigLayout.Proofs.Document
