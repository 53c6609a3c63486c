import SitePublish.Main
import SitePublish.Proofs.Command.Numbering
import SitePublish.Proofs.Component.Resolution
import SitePublish.Proofs.Deploy.Exclusion
import SitePublish.Proofs.Deploy.Failure
import SitePublish.Proofs.Deploy.Repetition
import SitePublish.Proofs.Filter.Rules
import SitePublish.Proofs.Remote.Race
import SitePublish.Proofs.Component.Defaults
import SitePublish.Proofs.Json.Rereading
import SitePublish.Proofs.Site.Storage
import SitePublish.Proofs.Remote.Listing
import SitePublish.Proofs.Remote.Transcript
import SitePublish.Proofs.Remote.Writing
import SitePublish.Proofs.Deploy.Account
import SitePublish.Proofs.Deploy.Bootstrap
import SitePublish.Proofs.Page.Content
import SitePublish.Proofs.Page.Layout
import SitePublish.Proofs.Site.Respelling
import SitePublish.Proofs.Site.Route
import SitePublish.Proofs.Page.Place
import SitePublish.Proofs.Page.Import
import SitePublish.Proofs.Page.Locality
import SitePublish.Proofs.Component.RegistryFile
import SitePublish.Proofs.Component.Retention
import SitePublish.Proofs.Deploy.Overlay
import SitePublish.Proofs.Page.Override
import SitePublish.Proofs.Remote.Truncation
import SitePublish.Proofs.Filter.Narrowing
import SitePublish.Proofs.Deploy.Marking
import SitePublish.Proofs.Text.Occurrence
import SitePublish.Proofs.Page.Marking
import SitePublish.Proofs.Deploy.Merging
import SitePublish.Proofs.Filter.Batch
import SitePublish.Proofs.Digest.Framing
import SitePublish.Proofs.Deploy.Fingerprint
import SitePublish.Proofs.Page.Identity
import SitePublish.Proofs.Site.Canon
import SitePublish.Proofs.Remote.Representation
import SitePublish.Proofs.Deploy.Locking
import SitePublish.Proofs.Version.Page
import SitePublish.Proofs.Settings.Suggestion
import SitePublish.Proofs.Project.Listing
import SitePublish.Proofs.Settings.Warning
import SitePublish.Proofs.Component.Obstacle
import SitePublish.Proofs.Page.Slug
import SitePublish.Proofs.Site.Containment
