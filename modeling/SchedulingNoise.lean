import SchedulingNoise.Main
import SchedulingNoise.Proofs.Pieces
import SchedulingNoise.Proofs.Tree
import SchedulingNoise.Proofs.Places
import SchedulingNoise.Proofs.Keeping
import SchedulingNoise.Proofs.Backup
import SchedulingNoise.Proofs.Custody
import SchedulingNoise.Proofs.Roots
import SchedulingNoise.Proofs.Searching
import SchedulingNoise.Proofs.Running
import SchedulingNoise.Proofs.History
import SchedulingNoise.Proofs.Interleaving
import SchedulingNoise.Proofs.Placement
import SchedulingNoise.Proofs.Declarations
import SchedulingNoise.Proofs.LineNumbers
import SchedulingNoise.Proofs.Comments
import SchedulingNoise.Proofs.Finds
import SchedulingNoise.Proofs.Annotations
import SchedulingNoise.Proofs.Updates
import SchedulingNoise.Proofs.Reassembly
import SchedulingNoise.Proofs.Renewal
import SchedulingNoise.Proofs.Freezing
import SchedulingNoise.Proofs.Generation
import SchedulingNoise.Proofs.Replay
import SchedulingNoise.Proofs.Batches
import SchedulingNoise.Proofs.Matching
import SchedulingNoise.Proofs.Discovery
import SchedulingNoise.Proofs.Decommenting
import SchedulingNoise.Proofs.CommentsAdded
import SchedulingNoise.Proofs.HeadReading
import SchedulingNoise.Proofs.HeadSearch
import SchedulingNoise.Proofs.FieldOwner
import SchedulingNoise.Proofs.LongNumbers
import SchedulingNoise.Proofs.ScanOrder
import SchedulingNoise.Proofs.Overwriting
import SchedulingNoise.Proofs.OpenLists
import SchedulingNoise.Proofs.Loading
import SchedulingNoise.Proofs.Accounting
import SchedulingNoise.Proofs.Ways
import SchedulingNoise.Proofs.Copies
import SchedulingNoise.Proofs.Mishaps
import SchedulingNoise.Proofs.Recovery
import SchedulingNoise.Proofs.Entries
import SchedulingNoise.Proofs.RoundTrip
import SchedulingNoise.Proofs.Grammar
import SchedulingNoise.Proofs.LetterCase
import SchedulingNoise.Proofs.Spelling
import SchedulingNoise.Proofs.Utf8Codec
import SchedulingNoise.Proofs.JsonLimits
import SchedulingNoise.Proofs.Messages
import SchedulingNoise.Proofs.Fallback
import SchedulingNoise.Proofs.Triggers
import SchedulingNoise.Proofs.Quiet
import SchedulingNoise.Proofs.Tokens
import SchedulingNoise.Proofs.Acceptance
import SchedulingNoise.Proofs.JsonTexts
import SchedulingNoise.Proofs.JsonValues
import SchedulingNoise.Proofs.Saving
import SchedulingNoise.Proofs.Drawing
import SchedulingNoise.Proofs.Statements
import SchedulingNoise.Proofs.Visible
import SchedulingNoise.Proofs.SourceFiles
import SchedulingNoise.Proofs.Coverage
