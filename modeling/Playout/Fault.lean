import Playout.Console.Signal
import Playout.Text.Utf8

namespace Playout

inductive FileFault where
  | notFound
  | notDirectory
  | isDirectory
  | nameTooLong
  | nulInName
  | notUtf8
  | other (reason : String)
  deriving DecidableEq, Repr

def FileFault.message : FileFault → String
  | notFound => "No such file or directory (os error 2)"
  | notDirectory => "Not a directory (os error 20)"
  | isDirectory => "Is a directory (os error 21)"
  | nameTooLong => "File name too long (os error 36)"
  | nulInName => "file name contained an unexpected NUL byte"
  | notUtf8 => "stream did not contain valid UTF-8"
  | other reason => reason

inductive ParseFault where
  | unterminatedQuote (token : String)
  | unsupportedRequest (line : String)
  | noTarget
  | invalidTarget (fault : Text.Utf8.Fault)
  | missingSource (target : String)
  | emptySource
  | leftWaiting (pending : Pending)
  | raised (signals : List Signal)
  | severalLines
  | other (reason : String)
  deriving DecidableEq, Repr

def ParseFault.message : ParseFault → String
  | unterminatedQuote token => "unterminated quote in " ++ token
  | unsupportedRequest line => "unsupported request: " ++ line
  | noTarget => "request has no target"
  | invalidTarget fault => "invalid request target: " ++ fault.message
  | missingSource target => "missing src in " ++ target
  | emptySource => "empty src"
  | leftWaiting pending => "request left " ++ pending.shown ++ " waiting for arguments"
  | raised signals =>
    "request raised " ++ Signal.shownList signals ++
      ", which the auxiliary endpoint cannot honour"
  | severalLines => "command must be a single line"
  | other reason => reason

inductive MediaFault where
  | unopenable (uri : String)
  | frameCount (value : String)
  | frameRate (value : String)
  | unknownProperty (name : String)
  | other (reason : String)
  deriving DecidableEq, Repr

def MediaFault.message : MediaFault → String
  | unopenable uri => "unable to open " ++ uri
  | frameCount value => "invalid frame count: " ++ value
  | frameRate value => "invalid frame rate: " ++ value
  | unknownProperty name => "unknown property: " ++ name
  | other reason => reason

def mediaMessage (fault : MediaFault) : String := "media error: " ++ fault.message

inductive MachineFault where
  | underflow
  | notNumber (text : String)
  | divisionByZero
  | noItem
  | media (cause : MediaFault)
  deriving DecidableEq, Repr

def MachineFault.message : MachineFault → String
  | underflow => "stack underflow"
  | notNumber text => "not a number: " ++ text
  | divisionByZero => "division by zero"
  | noItem => "top of stack is not an item"
  | media cause => mediaMessage cause

inductive CommandFault where
  | machine (cause : MachineFault)
  | nothingToPop
  | notInteger (text : String)
  | notNumber (text : String)
  | notItem (text : String)
  | notAssignment (text : String)
  | notLocated (name : String)
  | nestedTooDeeply
  | noLogLevel (level : Int)
  | invalidPort (port : Int)
  | other (reason : String)
  deriving DecidableEq, Repr

def CommandFault.message : CommandFault → String
  | machine cause => cause.message
  | nothingToPop => "nothing to pop"
  | notInteger text => "expected an integer, got " ++ text
  | notNumber text => "expected a number, got " ++ text
  | notItem text => "not an item: " ++ text
  | notAssignment text => "expected name=value, got " ++ text
  | notLocated name => "Unable to locate " ++ name
  | nestedTooDeeply => "includes nested too deeply"
  | noLogLevel level => "no log level " ++ toString level
  | invalidPort port => "invalid port " ++ toString port
  | other reason => reason

inductive ConnectionFault where
  | unreachable (host : String) (port : Nat) (reason : String)
  | closedByServer
  | other (reason : String)
  deriving DecidableEq, Repr

def ConnectionFault.message : ConnectionFault → String
  | unreachable host port reason => "connect to " ++ host ++ ":" ++ toString port ++ ": " ++ reason
  | closedByServer => "connection closed by server"
  | other reason => reason

inductive Fault where
  | parse (cause : ParseFault)
  | command (token : String) (cause : CommandFault)
  | connection (cause : ConnectionFault)
  | timeout (awaited : String)
  | config (reason : String)
  | media (cause : MediaFault)
  | file (cause : FileFault)
  | toml
  /-- No fault at all: the call that this stands for does not come back. -/
  | endless
  deriving DecidableEq, Repr

namespace Fault

def message : Fault → String
  | parse cause => "parse error: " ++ cause.message
  | command token cause => cause.message ++ " (" ++ token ++ ")"
  | connection cause => "connection error: " ++ cause.message
  | timeout awaited => "timed out waiting for " ++ awaited
  | config reason => "config error: " ++ reason
  | media cause => mediaMessage cause
  | file cause => "I/O error: " ++ cause.message
  | toml => "TOML parse error"
  | endless => "words without end"

def isLineScoped : Fault → Bool
  | parse _ | command _ _ => true
  | _ => false

def source? : Fault → Option String
  | file cause => some cause.message
  | _ => none

def shutDown : Fault := .config "player has been shut down"

def seekTimeout : Fault := .timeout "seek acknowledgement"

end Fault

end Playout
