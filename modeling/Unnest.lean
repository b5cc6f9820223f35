import Unnest.Command.Logging
import Unnest.Main
import Unnest.Script.Equality
import Unnest.Proofs.Flatten.Verified
import Unnest.Proofs.Flatten.NamedJumps
import Unnest.Proofs.Flatten.Orphans
import Unnest.Proofs.Flatten.Pieces
import Unnest.Proofs.Flatten.Failures
import Unnest.Proofs.Flatten.Linear
import Unnest.Proofs.Semantics.Preserved
import Unnest.Proofs.Flatten.Equivariant
import Unnest.Proofs.Flatten.Recast
import Unnest.Proofs.Flatten.Renamed
import Unnest.Proofs.Flatten.Targets
import Unnest.Proofs.Semantics.Completion
import Unnest.Proofs.Semantics.Safe
import Unnest.Proofs.Json.Inside
import Unnest.Proofs.Json.ReadBack
import Unnest.Proofs.Script.Spelling
import Unnest.Proofs.Script.Decoded
import Unnest.Proofs.Script.Indented
import Unnest.Proofs.Flatten.SwitchLabels
import Unnest.Proofs.Flatten.Walk
import Unnest.Proofs.Command.ReadBack
import Unnest.Proofs.Flatten.Retargeted
import Unnest.Proofs.Flatten.Unlabeled
import Unnest.Proofs.Flatten.OwnBreaks
import Unnest.Proofs.Flatten.ScheduleHistory
import Unnest.Proofs.Script.Printed
import Unnest.Proofs.Flatten.MergePoints
