import ReplicationQueue.TaskKey.Json
import ReplicationQueue.Layout.Json
import ReplicationQueue.Main
import ReplicationQueue.Proofs.Change
import ReplicationQueue.Proofs.Record
import ReplicationQueue.Proofs.Files
import ReplicationQueue.Proofs.Queue
import ReplicationQueue.Proofs.Site
import ReplicationQueue.Proofs.Calls
import ReplicationQueue.Proofs.Transition
import ReplicationQueue.Proofs.Creation
import ReplicationQueue.Proofs.Opening
import ReplicationQueue.Proofs.Listing
import ReplicationQueue.Proofs.Store
import ReplicationQueue.Proofs.Act
import ReplicationQueue.Proofs.Session
import ReplicationQueue.Proofs.Contents
import ReplicationQueue.Proofs.Ledger
import ReplicationQueue.Proofs.Replies
import ReplicationQueue.Proofs.Deed
import ReplicationQueue.Proofs.Exclusion
import ReplicationQueue.Proofs.Course
import ReplicationQueue.Proofs.InFlight
import ReplicationQueue.Proofs.Waiting
import ReplicationQueue.Proofs.Mark
import ReplicationQueue.Proofs.Conservation
import ReplicationQueue.Proofs.Claimable
import ReplicationQueue.Proofs.Migration
import ReplicationQueue.Proofs.Stop
import ReplicationQueue.Proofs.Atomic
import ReplicationQueue.Proofs.Interruption
import ReplicationQueue.Proofs.Crash
import ReplicationQueue.Proofs.Distinct
import ReplicationQueue.Proofs.Grammar
import ReplicationQueue.Proofs.RecordText
import ReplicationQueue.Proofs.RoundTrip
import ReplicationQueue.Proofs.Tree
import ReplicationQueue.Proofs.Provision
import ReplicationQueue.Proofs.Recovery
import ReplicationQueue.Proofs.Restart
import ReplicationQueue.Proofs.Presence
import ReplicationQueue.Proofs.Order
import ReplicationQueue.Proofs.Leftovers
import ReplicationQueue.Proofs.Configuration
import ReplicationQueue.Proofs.Spelling
import ReplicationQueue.Proofs.Paving
import ReplicationQueue.Proofs.Motion
import ReplicationQueue.Proofs.Outcome
import ReplicationQueue.Proofs.Publication
import ReplicationQueue.Proofs.Truncation
import ReplicationQueue.Proofs.Making
import ReplicationQueue.Proofs.Addition
import ReplicationQueue.Proofs.ByteOrder
import ReplicationQueue.Proofs.Below
import ReplicationQueue.Proofs.Fragment
import ReplicationQueue.Proofs.Taking
import ReplicationQueue.Proofs.Uri
import ReplicationQueue.Proofs.Expansion
import ReplicationQueue.Proofs.Telling
import ReplicationQueue.Proofs.Inventory
import ReplicationQueue.Proofs.Events
import ReplicationQueue.Proofs.Key
import ReplicationQueue.Proofs.JsonLines
