import ReplicationQueue.Disk.Path

/-! The variables of the environment, and the directories that they name. -/

namespace ReplicationQueue

structure Environment where
  get? : String → Option String
  /-- The home directory in the account's own record. -/
  account : Path

namespace Environment

/-- The home directory: the account's own when the variable is missing or empty. -/
def home (env : Environment) : Path :=
  match env.get? "HOME" with
  | some text => if text = "" then env.account else ⟨text⟩
  | none => env.account

/-- The directory that a variable names if it holds an absolute path, else one below the home
directory. -/
def baseDirectory (env : Environment) (name fallback : String) : Path :=
  match env.get? name with
  | some text => if (Path.mk text).isAbsolute then ⟨text⟩ else env.home.join fallback
  | none => env.home.join fallback

def dataDirectory (env : Environment) : Path :=
  env.baseDirectory "XDG_DATA_HOME" ".local/share"

def configDirectory (env : Environment) : Path :=
  env.baseDirectory "XDG_CONFIG_HOME" ".config"

end Environment

end ReplicationQueue
