import Flowgraph.Activity.Registry
import Flowgraph.Decimal.Reading
import Flowgraph.Json.Printer
import Flowgraph.Text.Basic
import Flowgraph.Text.Case
import Flowgraph.Url.Parse

/-!
# The activities that come along

Six activities with their schemas. They simulate effects (sending a message, requesting a
page) and do small things of their own, so that workflows can be tried out without any
service around them.
-/

set_option autoImplicit false

namespace Flowgraph.Activity.Builtin

open Run

/-- How long the activities take, and what the clock shows to them. -/
structure Options where
  /-- How many milliseconds sending a message takes. -/
  emailDelay : Nat := 1000
  /-- How many milliseconds requesting a page takes. -/
  httpDelay : Nat := 500
  /-- Whether waiting takes time. -/
  honorWait : Bool := true
  /-- The milliseconds since the beginning of 1970, for the ids of messages. -/
  clock : Nat := 0

/-- Options for activities that take no time. -/
def Options.instant (clock : Nat) : Options := ⟨0, 0, false, clock⟩

/-- An object with one member. -/
def single (name : String) (value : Json.Value) : Json.Value := .object [(name, value)]

/-- The text of an argument, if it is a text. -/
def text? (arguments : Store) (name : String) : Option String :=
  (Assoc.get? name arguments).bind Json.Value.string?

/-- The text that stands for a value: itself, or its written form. -/
def textOf (value : Json.Value) : String := value.string?.getD value.text

/-! ### What the activities do -/

/-- Pretends to send a message. -/
def sendEmail (o : Options) : Handler := fun _ _ =>
  ⟨o.emailDelay, .result (.ok (single "messageId" (.string ("msg-" ++ toString o.clock))))⟩

/-- The methods of requests. -/
def httpMethods : List String := ["GET", "POST", "PUT", "DELETE", "PATCH"]

/-- The letters from `a` to `z` in upper case. -/
def upperAscii (s : String) : String := String.ofList (s.toList.map Char.toUpper)

/-- Pretends to request a page. -/
def httpRequest (o : Options) : Handler := fun _ arguments =>
  match text? arguments "url" with
  | none => { conclusion := .result (.failure "URL is required") }
  | some url =>
    match Url.parse url with
    | .error fault =>
      { conclusion := .error ("Invalid URL '" ++ url ++ "': " ++ fault.message) }
    | .ok () =>
      let method := upperAscii ((text? arguments "method").getD "GET")
      if method ∈ httpMethods then
        ⟨o.httpDelay, .result (.ok (.object
          [("body", .string "Success"), ("statusCode", .ofInt 200)]))⟩
      else { conclusion := .error ("Unsupported HTTP method: " ++ method) }

/-- The operations on text. -/
def operations : List (String × (String → String)) :=
  [("uppercase", Text.upper), ("lowercase", Text.lower), ("reverse", Text.reverse)]

/-- Transforms a text. -/
def transformData : Handler := fun _ arguments =>
  let argument (name : String) := ((Assoc.get? name arguments).map textOf).getD "undefined"
  match Assoc.get? (argument "operation") operations with
  | some f =>
    { conclusion := .result (.ok (single "transformed" (.string (f (argument "input"))))) }
  | none => { conclusion := .result (.failure ("Unknown operation: " ++ argument "operation")) }

/-- The number that a duration in seconds is given by. -/
def seconds? : Json.Value → Option Binary64
  | .number n => some n.toBinary64
  | .string s =>
    match Decimal.read? (Text.trim s).toList with
    | some (.finite x) => some x
    | _ => none
  | _ => none

/-- The nanoseconds of a duration in seconds, rounded; none if there is no such duration. -/
def nanoseconds? (seconds : Binary64) : Option Nat :=
  let nanos := Binary64.roundDiv (seconds.units * 1000000000) Binary64.unitsPerOne
  if (seconds.negative ∧ seconds.magnitude ≠ 0) ∨ Nat.pow 2 64 * 1000000000 ≤ nanos then none
  else some nanos

/-- The milliseconds that are waited for so many nanoseconds. -/
def waitLength (nanos : Nat) : Nat := sleepLength ((nanos + 999999) / 1000000)

/-- Waits. -/
def wait (o : Options) : Handler := fun _ arguments =>
  let requested := (Assoc.get? "seconds" arguments).getD (.ofInt 1)
  match (seconds? requested).bind nanoseconds? with
  | none => { conclusion := .error ("Invalid duration: " ++ requested.text) }
  | some nanos =>
    ⟨if o.honorWait then waitLength nanos else 0, .result (.ok (single "waited" requested))⟩

/-- Writes a message to the log. -/
def logMessage : Handler := fun _ _ =>
  { conclusion := .result (.ok (single "logged" (.bool true))) }

/-- Gives its arguments back. -/
def echo : Handler := fun _ arguments => { conclusion := .result (.ok (.object arguments)) }

/-! ### Their schemas -/

/-- A text that has to be given. -/
def textParameter (name label placeholder : String) (multiline : Bool) (help : String) :
    Parameter :=
  { name, label, kind := .string (some placeholder) multiline, required := true,
    help := some help }

/-- One of some texts, with a default or else to be given. -/
def optionParameter (name label : String) (options : List String) (default : Option String)
    (help : String) : Parameter :=
  { name, label, kind := .enumeration (options.map .plain), required := default.isNone,
    default := default.map .string, help := some help }

/-- The schema of `sendEmail`. -/
def sendEmailSchema : Schema where
  name := "sendEmail"
  label := "Send Email"
  description := some "Send an email message"
  category := some "Communication"
  parameters :=
    [ textParameter "to" "Recipient Email" "user@example.com" false
        "Email address of the recipient",
      textParameter "subject" "Subject" "Enter subject..." false "Email subject line",
      textParameter "body" "Message Body" "Enter message..." true "Email message content" ]

/-- The schema of `httpRequest`. -/
def httpRequestSchema : Schema where
  name := "httpRequest"
  label := "HTTP Request"
  description := some "Make an HTTP request to an external API"
  category := some "Integration"
  parameters :=
    [ textParameter "url" "URL" "https://api.example.com/endpoint" false
        "The URL to make the request to",
      optionParameter "method" "HTTP Method" httpMethods (some "GET") "HTTP method to use" ]

/-- The schema of `transformData`. -/
def transformDataSchema : Schema where
  name := "transformData"
  label := "Transform Data"
  description := some "Transform text data using various operations"
  category := some "Data Processing"
  parameters :=
    [ textParameter "input" "Input Text" "Enter text or use $\x7bvariableName\x7d" false
        "The text to transform",
      optionParameter "operation" "Operation" (operations.map (·.1)) none
        "Transformation to apply" ]

/-- The schema of `wait`. -/
def waitSchema : Schema where
  name := "wait"
  label := "Wait / Delay"
  description := some "Pause workflow execution for a specified duration"
  category := some "Flow Control"
  parameters :=
    [ { name := "seconds", label := "Duration (seconds)",
        kind := .number (Binary64.ofInt? 0) (Binary64.ofInt? 3600) none,
        default := some (.ofInt 1), help := some "Number of seconds to wait" } ]

/-- The schema of `logMessage`. -/
def logMessageSchema : Schema where
  name := "logMessage"
  label := "Log Message"
  description := some "Log a message during workflow execution"
  category := some "Debugging"
  parameters :=
    [ textParameter "message" "Message" "Enter log message..." true "The message to log",
      optionParameter "level" "Log Level" ["debug", "info", "warn", "error"] (some "info")
        "Severity level of the log message" ]

/-- The schema of `echo`. -/
def echoSchema : Schema where
  name := "echo"
  label := "Echo"
  description := some "Return the supplied arguments unchanged"
  category := some "Debugging"
  parameters :=
    [ { name := "payload", label := "Payload", kind := .object,
        help := some "Any arguments; all of them are echoed back" } ]

/-- Registers the six activities. -/
def register (r : Registry) (o : Options) : Registry :=
  r.register "sendEmail" (sendEmail o) sendEmailSchema
  |>.register "httpRequest" (httpRequest o) httpRequestSchema
  |>.register "transformData" transformData transformDataSchema
  |>.register "wait" (wait o) waitSchema
  |>.register "logMessage" logMessage logMessageSchema
  |>.register "echo" echo echoSchema

end Flowgraph.Activity.Builtin
