import ControlStore.AddressField
import ControlStore.Catalog
import ControlStore.Catalog.D1
import ControlStore.Catalog.D2
import ControlStore.Catalog.EightBit
import ControlStore.Catalog.Flisp
import ControlStore.Command
import ControlStore.Disk
import ControlStore.DiskError
import ControlStore.Error
import ControlStore.Event
import ControlStore.Failure
import ControlStore.FileFormat
import ControlStore.Files
import ControlStore.Flags
import ControlStore.Layout
import ControlStore.Main
import ControlStore.Options
import ControlStore.Path
import ControlStore.Proofs.Address
import ControlStore.Proofs.Arrangements
import ControlStore.Proofs.BoundedLayout
import ControlStore.Proofs.BurnOutcomes
import ControlStore.Proofs.Commit
import ControlStore.Proofs.ConditionTexts
import ControlStore.Proofs.ConditionalLines
import ControlStore.Proofs.Construction
import ControlStore.Proofs.Continuation
import ControlStore.Proofs.DenseTable
import ControlStore.Proofs.Drafts
import ControlStore.Proofs.Fill
import ControlStore.Proofs.FilledImages
import ControlStore.Proofs.IndexedSignals
import ControlStore.Proofs.Interleaving
import ControlStore.Proofs.LaneNames
import ControlStore.Proofs.Lanes
import ControlStore.Proofs.Leftovers
import ControlStore.Proofs.LogisimImage
import ControlStore.Proofs.Meaning
import ControlStore.Proofs.Outcome
import ControlStore.Proofs.Pieces
import ControlStore.Proofs.Placement
import ControlStore.Proofs.Polarity
import ControlStore.Proofs.Procedures
import ControlStore.Proofs.ReadWidth
import ControlStore.Proofs.Reading
import ControlStore.Proofs.Redefinition
import ControlStore.Proofs.Renderings
import ControlStore.Proofs.Replacement
import ControlStore.Proofs.Revisions
import ControlStore.Proofs.Sealing
import ControlStore.Proofs.Sections
import ControlStore.Proofs.Signals
import ControlStore.Proofs.Slices
import ControlStore.Proofs.Staging
import ControlStore.Proofs.Statements
import ControlStore.Proofs.StoredAnswers
import ControlStore.Proofs.StoredBits
import ControlStore.Proofs.StoredTable
import ControlStore.Proofs.Table
import ControlStore.Proofs.TermSets
import ControlStore.Proofs.Terms
import ControlStore.Proofs.Text
import ControlStore.Proofs.Unfolding
import ControlStore.Proofs.Values
import ControlStore.Proofs.Volume
import ControlStore.Proofs.Word
import ControlStore.Proofs.Written
import ControlStore.Rom
import ControlStore.Signals
import ControlStore.Source.Compile
import ControlStore.Source.Fault
import ControlStore.Source.Reader
import ControlStore.Source.Statement
import ControlStore.Table
import ControlStore.Target
import ControlStore.Text
import ControlStore.Text.Hidden
import ControlStore.Text.Quoted
import ControlStore.Tree
import ControlStore.Word
