import NoteDecor.Log.Registry
import NoteDecor.Main
import NoteDecor.Rule.CriteriaText
import NoteDecor.Fault.Arguments
import NoteDecor.Proofs.Engine.Isolation
import NoteDecor.Proofs.Settings.Reloading
import NoteDecor.Proofs.Workspace.Change
import NoteDecor.Proofs.Workspace.FailedReload
import NoteDecor.Proofs.Workspace.Loading
import NoteDecor.Proofs.Settings.Refilling
import NoteDecor.Proofs.Workspace.SuccessfulReload
import NoteDecor.Proofs.Engine.Preloads
import NoteDecor.Proofs.Engine.Runs
import NoteDecor.Proofs.Engine.Independence
import NoteDecor.Proofs.Engine.LazyLoading
import NoteDecor.Proofs.Workspace.Rejection
import NoteDecor.Proofs.Value.KeyedOnce
import NoteDecor.Proofs.Yaml.KeyedOnce
import NoteDecor.Proofs.Settings.KeyedOnce
import NoteDecor.Proofs.Value.Merging
import NoteDecor.Proofs.Settings.Precedence
import NoteDecor.Proofs.Workspace.Following
import NoteDecor.Proofs.Snapshot.Rereading
import NoteDecor.Proofs.CommandLine.Configuring
import NoteDecor.Proofs.CommandLine.Endings
import NoteDecor.Proofs.Deciding
import NoteDecor.Proofs.Rule.Format
import NoteDecor.Proofs.Rule.Persistence
import NoteDecor.Proofs.Outcome.Rereading
import NoteDecor.Proofs.Value.KeyPath
import NoteDecor.Proofs.Value.Cells
import NoteDecor.Proofs.Value.Grounded
import NoteDecor.Proofs.Value.Tidy
import NoteDecor.Proofs.Settings.Agreement
import NoteDecor.Proofs.Value.Storing
import NoteDecor.Proofs.Settings.EnvironmentOrder
import NoteDecor.Proofs.Workspace.Unwatching
import NoteDecor.Proofs.Engine.Statistics
import NoteDecor.Proofs.CommandLine.Agreement
import NoteDecor.Proofs.Log.Contexts
import NoteDecor.Proofs.Settings.Sound
import NoteDecor.Proofs.Value.Stepwise
import NoteDecor.Proofs.Workspace.Storing
import NoteDecor.Proofs.Workspace.Objects
import NoteDecor.Proofs.Rule.CriteriaText
import NoteDecor.Proofs.Value.Differing
import NoteDecor.Proofs.Settings.EnvironmentValues
import NoteDecor.Proofs.CommandLine.PathSettings
import NoteDecor.Proofs.Json.Criteria
import NoteDecor.Proofs.Match.Frontmatter
import NoteDecor.Proofs.Match.Deciding
import NoteDecor.Proofs.Match.Reshaping
import NoteDecor.Proofs.Engine.Updates
import NoteDecor.Proofs.Match.Accepted
import NoteDecor.Proofs.Engine.Startup
import NoteDecor.Proofs.Engine.Naming
import NoteDecor.Proofs.Log.Current
import NoteDecor.Proofs.Engine.Failing
import NoteDecor.Proofs.Notice.Warnings
import NoteDecor.Proofs.Value.Frozen
import NoteDecor.Proofs.Outcome.Styles
