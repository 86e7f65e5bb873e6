import FlowMigration.Main
import FlowMigration.Proofs.Topology.Arena
import FlowMigration.Proofs.Topology.Nesting
import FlowMigration.Proofs.Disk.Follow
import FlowMigration.Proofs.Disk.Move
import FlowMigration.Proofs.Session.Together
import FlowMigration.Proofs.Package.Ownership
import FlowMigration.Proofs.Config.RoundTrip
import FlowMigration.Proofs.Config.Save
import FlowMigration.Proofs.Glob.Ending
import FlowMigration.Proofs.Glob.Plain
import FlowMigration.Proofs.Package.Portable
import FlowMigration.Proofs.Migration.Opening
import FlowMigration.Proofs.Package.Keys
import FlowMigration.Proofs.Package.Matching
import FlowMigration.Proofs.Migration.Passage
import FlowMigration.Proofs.Migration.Rerun
import FlowMigration.Proofs.Migration.Manifests
import FlowMigration.Proofs.Migration.Resume
import FlowMigration.Proofs.Migration.Packages
import FlowMigration.Proofs.Package.Places
import FlowMigration.Proofs.Package.Split
import FlowMigration.Proofs.Package.Denotation
import FlowMigration.Proofs.Package.Returned
import FlowMigration.Proofs.Migration.Alarms
import FlowMigration.Proofs.Migration.Dependencies
import FlowMigration.Proofs.Migration.OwnNames
import FlowMigration.Proofs.Config.Reopening
import FlowMigration.Proofs.Migration.Conversions
import FlowMigration.Proofs.Source.Imports
import FlowMigration.Proofs.Source.Comments
import FlowMigration.Proofs.Source.Order
import FlowMigration.Proofs.Package.Files
import FlowMigration.Proofs.Package.Discovery
import FlowMigration.Proofs.Manifest
import FlowMigration.Proofs.Source.Front
import FlowMigration.Proofs.Migration.PackageOrder
import FlowMigration.Proofs.Report.Printer
import FlowMigration.Proofs.Source.StatementLists
import FlowMigration.Proofs.Topology.Visits
