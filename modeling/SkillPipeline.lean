import SkillPipeline.Text.Basic
import SkillPipeline.Text.Lowercase
import SkillPipeline.Number.Notation
import SkillPipeline.Number.Reader
import SkillPipeline.Number.Arithmetic
import SkillPipeline.Document.Json.Reader
import SkillPipeline.Document.Digest
import SkillPipeline.Files.Media
import SkillPipeline.Fault
import SkillPipeline.Files.Access
import SkillPipeline.Journal.Notice
import SkillPipeline.Filter.Template
import SkillPipeline.Parameter.Color
import SkillPipeline.Parameter.TimeText
import SkillPipeline.Parameter.Check
import SkillPipeline.Skill.Normalization
import SkillPipeline.Graph.Merger
import SkillPipeline.Command.Flags
import SkillPipeline.Command.Descriptor
import SkillPipeline.Effect.Handler
import SkillPipeline.Document.Shape
import SkillPipeline.Effect.Temporal
import SkillPipeline.Effect.Audio
import SkillPipeline.Effect.Encoding
import SkillPipeline.Effect.Spatial
import SkillPipeline.Effect.Visual
import SkillPipeline.Effect.Lettering
import SkillPipeline.Effect.Table
import SkillPipeline.Document.Yaml.Cursor
import SkillPipeline.Document.Yaml.Scalar
import SkillPipeline.Document.Yaml.Text
import SkillPipeline.Document.Yaml.Reader
import SkillPipeline.Skill.Entry
import SkillPipeline.Skill.Definition
import SkillPipeline.Catalogue.Builtin
import SkillPipeline.Registry.Index
import SkillPipeline.Registry.Schema
import SkillPipeline.Registry.Listing
import SkillPipeline.Registry.Basic
import SkillPipeline.Registry.Session
import SkillPipeline.Registry.Loading
import SkillPipeline.Pipeline.Request
import SkillPipeline.Pipeline.Context
import SkillPipeline.Pipeline.Rendering
import SkillPipeline.Pipeline.Expansion
import SkillPipeline.Pipeline.Reservation
import SkillPipeline.Pipeline.Assembly
import SkillPipeline.Pipeline.Compiler
import SkillPipeline.Settings
import SkillPipeline.CommandLine.Options
import SkillPipeline.CommandLine.Invocation
import SkillPipeline.CommandLine.RequestFile
import SkillPipeline.CommandLine.Run
import SkillPipeline.Service.Message
import SkillPipeline.Service.Routes
import SkillPipeline.Service.Server
import SkillPipeline.Main
import SkillPipeline.CommandLine.Mentions
import SkillPipeline.Document.Instant
import SkillPipeline.Proofs.Graph.Simulation
import SkillPipeline.Proofs.Pipeline.Totality
import SkillPipeline.Proofs.Graph.Closure
import SkillPipeline.Proofs.Pipeline.Plan
import SkillPipeline.Proofs.Pipeline.Ownership
import SkillPipeline.Proofs.Pipeline.Merging
import SkillPipeline.Proofs.Pipeline.Rendering
import SkillPipeline.Proofs.Pipeline.ClosedGraph
import SkillPipeline.Proofs.Catalogue.Guarantees
import SkillPipeline.Proofs.Pipeline.Breakdown
import SkillPipeline.Proofs.Filter.Reading
import SkillPipeline.Proofs.Graph.Abandonment
import SkillPipeline.Proofs.Outcome
import SkillPipeline.Proofs.Graph.Matching
import SkillPipeline.Proofs.Pipeline.Correspondence
import SkillPipeline.Proofs.Registry.Foundation
import SkillPipeline.Proofs.Pipeline.Inlining
import SkillPipeline.Proofs.Pipeline.Rewording
import SkillPipeline.Proofs.Registry.Search
import SkillPipeline.Proofs.Pipeline.Repetition
import SkillPipeline.Proofs.Pipeline.History
import SkillPipeline.Proofs.Pipeline.Descent
import SkillPipeline.Proofs.Pipeline.Validation
import SkillPipeline.Proofs.Effect.Acceptance
import SkillPipeline.Proofs.Pipeline.Exclusivity
import SkillPipeline.Proofs.Filter.Exposure
import SkillPipeline.Proofs.Legibility.Templates
import SkillPipeline.Proofs.Registry.Views
import SkillPipeline.Proofs.Registry.Batches
import SkillPipeline.Proofs.Command.Words
import SkillPipeline.Proofs.Pipeline.Decoding
import SkillPipeline.Proofs.Graph.Freshness
import SkillPipeline.Proofs.Graph.Usage
import SkillPipeline.Proofs.Document.Members
import SkillPipeline.Proofs.Document.Shape
import SkillPipeline.Proofs.Parameter.Fitting
import SkillPipeline.Proofs.Skill.Coherence
import SkillPipeline.Proofs.Skill.Settlement
import SkillPipeline.Proofs.Pipeline.Recompilation
import SkillPipeline.Proofs.Number.Order
import SkillPipeline.Proofs.Text.Regular
import SkillPipeline.Proofs.Parameter.Color
import SkillPipeline.Proofs.Skill.Values
import SkillPipeline.Proofs.Registry.Conformance
import SkillPipeline.Proofs.Command.Grouping
import SkillPipeline.Proofs.Command.Modes
import SkillPipeline.Proofs.Pipeline.Options
import SkillPipeline.Proofs.Pipeline.SilentInput
import SkillPipeline.Proofs.Text.WhiteSpace
import SkillPipeline.Proofs.Parameter.Choice
import SkillPipeline.Proofs.Skill.Aliases
import SkillPipeline.Proofs.Command.Deduplication
import SkillPipeline.Proofs.Graph.Routing
import SkillPipeline.Proofs.Pipeline.DefaultMaps
import SkillPipeline.Proofs.Filter.Unescaping
import SkillPipeline.Proofs.Parameter.Clock
import SkillPipeline.Proofs.Pipeline.Explanation
import SkillPipeline.Proofs.Filter.Segments
import SkillPipeline.Proofs.Skill.Declaration
import SkillPipeline.Proofs.Pipeline.Substitution
import SkillPipeline.Proofs.Effect.Crossfade
import SkillPipeline.Proofs.Files.Access
import SkillPipeline.Proofs.Registry.Loading
import SkillPipeline.Proofs.Effect.Accounting
import SkillPipeline.Proofs.Effect.Tempo
import SkillPipeline.Proofs.Number.Rounding
import SkillPipeline.Proofs.Number.Whole
import SkillPipeline.Proofs.Number.Decimal
import SkillPipeline.Proofs.Effect.GridLayout
import SkillPipeline.Proofs.Effect.Window
import SkillPipeline.Proofs.Effect.Timeline
import SkillPipeline.Proofs.Document.Canonical
import SkillPipeline.Proofs.Journal.Redaction
