import Playout.Console.Script
import Playout.Text.Percent

namespace Playout.Wire.Request

def firstLine : List Char → List Char
  | '\r' :: '\n' :: _ => []
  | c :: rest => c :: firstLine rest
  | [] => []

def sourceMark : List Char := "/?src=".toList

def frameMark : List Char := "frames=".toList

def tokensOfTarget (target : List Char) : Except ParseFault (List String) :=
  if sourceMark.isPrefixOf target then
    match Text.pieces '&' (target.drop sourceMark.length) with
    | [] | [] :: _ => .error .emptySource
    | source :: arguments =>
      .ok (String.ofList source ::
        (arguments.filter frameMark.isPrefixOf).map String.ofList ++ [Console.Word.add.name])
  else .error (.missingSource (String.ofList target))

/-- The tokens of a request by its head. The target is decoded as a whole, so what it encodes may
separate arguments. -/
def tokens (head : String) : Except ParseFault (List String) :=
  let line := firstLine head.toList
  match Text.words line with
  | method :: more =>
    if method = "GET".toList then
      match more with
      | [] => .error .noTarget
      | target :: _ =>
        let bytes := Text.Utf8.encode (String.ofList target)
        match Text.Utf8.decode (Text.Percent.decode bytes) with
        | .error fault => .error (.invalidTarget fault)
        | .ok decoded => tokensOfTarget decoded.toList
    else .error (.unsupportedRequest (String.ofList line))
  | [] => .error (.unsupportedRequest (String.ofList line))

/-- A request may neither leave a word waiting nor raise a signal. -/
def verdict (r : Except Fault Unit) (pending : Option Pending) (signals : List Signal) :
    Except Fault Unit :=
  match r, pending, signals with
  | .error fault, _, _ => .error fault
  | .ok (), some pending, _ => .error (.parse (.leftWaiting pending))
  | .ok (), none, [] => .ok ()
  | .ok (), none, signals => .error (.parse (.raised signals))

def handle (head : String) (desk : Desk) : Except Fault Unit × Desk :=
  match tokens head with
  | .error cause => (.error (.parse cause), desk)
  | .ok tokens =>
    let (r, desk) := Act.run (tokens.forM Console.push) desk
    let (_, console) := desk.console.takeOutput
    let (pending, console) := console.cancelPending
    let (signals, console) := console.takeSignals
    (verdict r pending signals, { desk with console })

end Playout.Wire.Request
