import Countersign.Proofs.Accounting
import Countersign.Proofs.Backing
import Countersign.Proofs.Controlling
import Countersign.Proofs.Culprits
import Countersign.Proofs.Failing
import Countersign.Proofs.Gathering
import Countersign.Proofs.Grammar
import Countersign.Proofs.Immutable
import Countersign.Proofs.Participation
import Countersign.Proofs.Reaching
import Countersign.Proofs.Readings
import Countersign.Proofs.Receiving
import Countersign.Proofs.Rejection
import Countersign.Proofs.Renewal
import Countersign.Proofs.Reordering
import Countersign.Proofs.Revocation
import Countersign.Proofs.Shapes
import Countersign.Proofs.Stamping
import Countersign.Proofs.Sweeping
import Countersign.Proofs.Transparency
import Countersign.Telemetry
