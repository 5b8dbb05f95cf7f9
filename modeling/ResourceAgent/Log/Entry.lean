/-!
# Log entries

An entry says how grave it is, which part of the program wrote it, and its message. Entries that
are written while a resource is being worked on carry the scope of that work.
-/
namespace ResourceAgent.Log

/-- How grave an entry is; the graver levels come first. -/
inductive Level where
  | error
  | warn
  | info
  | debug
  | trace
deriving Repr, DecidableEq

namespace Level

/-- The place of the level in the order, from one for the gravest. -/
def rank : Level → Nat
  | .error => 1
  | .warn => 2
  | .info => 3
  | .debug => 4
  | .trace => 5

def label : Level → String
  | .error => "ERROR"
  | .warn => "WARN"
  | .info => "INFO"
  | .debug => "DEBUG"
  | .trace => "TRACE"

end Level

/-- The part of the program that writes an entry. -/
inductive Origin where
  | program
  | commands
  | client
  | runner
  | manager
  | report
  | loader
  | operation
deriving Repr, DecidableEq

/-- The target that filters know the part by. -/
def Origin.target : Origin → String
  | .program => "pcs_resource_agent"
  | .commands => "pcs_resource_agent::cli::commands"
  | .client => "pcs_resource_agent::pcs"
  | .runner => "pcs_resource_agent::runner::local"
  | .manager => "pcs_resource_agent::resource::manager"
  | .report => "pcs_resource_agent::resource::result"
  | .loader => "pcs_resource_agent::config::loader"
  | .operation => "pcs_resource_agent::logging::logger"

/-- The work on one resource: what is being done, and to which resource. -/
structure Scope where
  operation : String
  resource : String
deriving Repr, DecidableEq

structure Entry where
  level : Level
  origin : Origin
  message : String
  scope : Option Scope := none
deriving Repr, DecidableEq

end ResourceAgent.Log
