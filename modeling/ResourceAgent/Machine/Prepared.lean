import ResourceAgent.Machine.Local

/-!
# A machine with a prepared `pcs`

Here `pcs` gives prepared answers in order and keeps what it was asked; once they are used up it
succeeds in silence. It can be started by its name and as `./pcs`, and nothing else can.
-/
namespace ResourceAgent

/-- What a prepared `pcs` still has to say, and what it was asked. -/
structure Prepared where
  answers : List Conduct := []
  asked : List (List String) := []
deriving Repr

namespace Prepared

/-- The next answer. -/
def pcs : Installed Prepared := fun args p =>
  match p.answers with
  | [] => ({ }, { p with asked := p.asked ++ [args] })
  | c :: rest => (c, { answers := rest, asked := p.asked ++ [args] })

/-- The machine with the given files in its working directory. -/
def machine (files : List (List String × DiskNode)) : Machine Prepared where
  disk := (Disk.system.put ["pcs"] (.program "pcs")).putAll files
  programs := [("pcs", pcs)]

end Prepared

end ResourceAgent
