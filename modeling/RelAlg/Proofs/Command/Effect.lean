import RelAlg.Proofs.Command.Line
import RelAlg.Proofs.Store.Columns

set_option autoImplicit false

namespace RelAlg.Command

open Store (Named)
open Text (trimmed)

section Edits

variable {s s' : Store} {c : Command} {name : String} {values : List Value} {index : Nat}

end Edits

end RelAlg.Command
