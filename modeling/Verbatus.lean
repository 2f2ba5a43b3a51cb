import Verbatus.Ink.EdgeAgreement
import Verbatus.Outcomes.Attribution
import Verbatus.PagePath.ActIdentity
import Verbatus.Recensor.Released
import Verbatus.StageSeal.Interrupted
import Verbatus.Review.Holding
import Verbatus.Review.Published
import Verbatus.Review.Stale
import Verbatus.Repetition.Chunking
import Verbatus.PageEdges.Continuation
import Verbatus.InOrderWindow.Publish
import Verbatus.Contracts.CanonicalExact
import Verbatus.PageAccounting.Duplicates
import Verbatus.PageAccounting.Cites
import Verbatus.PageAccounting.Substring
import Verbatus.PageAccounting.Coverage
import Verbatus.Ink.Classes
import Verbatus.PageReading.Repair
import Verbatus.PageAccounting.Text
import Verbatus.RunTree.Evidence
import Verbatus.Pod.LeaseHistory
import Verbatus.Register.AppendOnly
import Verbatus.Receipt.Honest
import Verbatus.PageFeed.Feed
import Verbatus.DoubtMarks.Display
import Verbatus.Reconstruction.Departures
import Verbatus.Dissent.Accepted
import Verbatus.Churro.Escape
import Verbatus.Churro.Validate
import Verbatus.Churro.ReadOnce
import Verbatus.Ink.MeasuredMap
import Verbatus.Pod.GuardEarned
import Verbatus.Corpus.Spelling
import Verbatus.Corpus.CompareExact
import Verbatus.Capacity.Charged
