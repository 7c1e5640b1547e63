import TimedCache.Settings.Name
import TimedCache.Text.Quoted

/-!
What can go wrong. A `SetupError` is a reason why a cache cannot be set up; a `Fault` ends the
operation that meets it. Each has its message.
-/
namespace TimedCache

inductive Misconfiguration
  | noSweeps
  | notAnInteger (setting : Setting) (given : String)
  | negative (setting : Setting) (value : Int)
  /-- Another reason, in the words of whoever gives it. -/
  | other (reason : String)
deriving DecidableEq

inductive SetupError
  | misconfigured (why : Misconfiguration)
  | unknownUnit (given : String)
  /-- Nothing is there for the sweeper to run on. -/
  | noRuntime
deriving DecidableEq

inductive Fault
  | notCreated (cause : SetupError)
  | clockOverflow
deriving DecidableEq

/-- A text that is no integer is quoted as it was given, white space and all. -/
def Misconfiguration.message : Misconfiguration → String
  | .noSweeps => "sweep frequency must be positive"
  | .notAnInteger setting given => setting.variableName ++ ": not an integer: " ++ Text.quoted given
  | .negative setting value => setting.variableName ++ ": negative value " ++ toString value
  | .other reason => reason

def SetupError.message : SetupError → String
  | .misconfigured why => "Invalid configuration: " ++ why.message
  | .unknownUnit given => "Unknown measure unit: " ++ given
  | .noRuntime => "No tokio runtime available to run the sweeper"

def Fault.message : Fault → String
  | .notCreated cause => "cannot create cache: " ++ cause.message
  | .clockOverflow => "overflow when adding duration to instant"

end TimedCache
