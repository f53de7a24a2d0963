import Playout.Number.Integer

namespace Playout.Terminal

structure Options where
  config : Option String := none
  server : Option Nat := none
  connect : Option String := none
  scripts : List String := []
  help : Bool := false
  deriving DecidableEq, Repr

inductive OptionFault where
  | unknown (option : String)
  | noValue (option : String)
  | invalidPort (given : String)
  | combined
  deriving DecidableEq, Repr

def OptionFault.message : OptionFault → String
  | unknown option => "unknown option " ++ option
  | noValue option => option ++ " needs a value"
  | invalidPort given => "invalid port for --server: " ++ given
  | combined => "--connect and --server cannot be combined"

def usage : String :=
  "usage: cuebox [options] [script...]\n\n" ++
  "options:\n" ++
  "  --config <path>        configuration file (default: $CUEBOX_CONFIG)\n" ++
  "  --server <port>        start the network server on <port> (auxiliary on port + 1)\n" ++
  "  --connect <host[:port]> run a remote shell against a running server\n" ++
  "  -h, --help             show this message\n\n" ++
  "Scripts are run in order before the prompt appears."

namespace Options

def servedPort? (given : String) : Option Nat :=
  (Number.port? given.toList).filter (· ≠ 0)

def take (o : Options) : List String → Except OptionFault Options
  | [] => if o.connect.isSome ∧ o.server.isSome then .error .combined else .ok o
  | argument :: rest =>
    match argument, rest with
    | "-h", rest | "--help", rest => take { o with help := true } rest
    | "--config", value :: rest => take { o with config := some value } rest
    | "--connect", value :: rest => take { o with connect := some value } rest
    | "--server", value :: rest =>
      match servedPort? value with
      | some port => take { o with server := some port } rest
      | none => .error (.invalidPort value)
    | "--config", [] | "--connect", [] | "--server", [] => .error (.noValue argument)
    | _, rest =>
      if argument.startsWith "--" then .error (.unknown argument)
      else take { o with scripts := o.scripts ++ [argument] } rest

def ofArguments (arguments : List String) : Except OptionFault Options := take {} arguments

end Options

end Playout.Terminal
