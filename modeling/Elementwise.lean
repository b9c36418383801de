import Elementwise.IR.Build
import Elementwise.Main
import Elementwise.Proofs.Agreement
import Elementwise.Proofs.Balance
import Elementwise.Proofs.ConstantText
import Elementwise.Proofs.Dispatch
import Elementwise.Proofs.FunctionSections
import Elementwise.Proofs.HalfRounding
import Elementwise.Proofs.Identification
import Elementwise.Proofs.Independence
import Elementwise.Proofs.LiteralText
import Elementwise.Proofs.MeetingBlocks
import Elementwise.Proofs.MergeBlocks
import Elementwise.Proofs.OptionIndependence
import Elementwise.Proofs.OptionSalt
import Elementwise.Proofs.OutputFiles
import Elementwise.Proofs.PackedModules
import Elementwise.Proofs.Refusals
import Elementwise.Proofs.Reports
import Elementwise.Proofs.Resolution
import Elementwise.Proofs.Totality
