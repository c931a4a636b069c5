import Graft.Disk.Tree
import Graft.Main
import Graft.Payload.Published
import Graft.Proofs.Backup.Freshness
import Graft.Proofs.Disk.Atomicity
import Graft.Proofs.Document
import Graft.Proofs.Edit.Preservation
import Graft.Proofs.Run.Rehearsal
import Graft.Proofs.Steps
import Graft.Proofs.Edit.Removability
import Graft.Proofs.Run.Removability
import Graft.Proofs.Brace.Realigning
import Graft.Proofs.Fragment.Recognition
import Graft.Proofs.Edit.Laying
import Graft.Proofs.Edit.Undoing
import Graft.Proofs.Edit.Anchors
import Graft.Proofs.Edit.Verdict
import Graft.Proofs.Text.SolidLines
import Graft.Proofs.Edit.WholeLines
import Graft.Proofs.Edit.Acceptance
import Graft.Proofs.Edit.LongestRun
import Graft.Proofs.Brace.Automaton
import Graft.Proofs.Edit.Splicing
import Graft.Proofs.Run.Upgrade
import Graft.Proofs.Edit.Headers
import Graft.Proofs.Edit.Excision
import Graft.Proofs.Edit.Above
import Graft.Proofs.Payload.Conversion
import Graft.Proofs.Payload.Selection
import Graft.Proofs.Payload.KeyOrder
import Graft.Proofs.Config.Saving
import Graft.Proofs.Fragment.Escapes
