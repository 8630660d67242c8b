import Flowgraph.Proofs.Wire.Activity
import Flowgraph.Proofs.Wire.Canvas
import Flowgraph.Proofs.Wire.Definition
import Flowgraph.Proofs.Wire.Event
import Flowgraph.Proofs.Wire.Message

/-!
# The wire format loses nothing

A `Form` is a type that goes over the wire as JSON text. `Form.faithful` gathers what the modules
before this one say of the types one by one; `Form.roundTrip` says of each that the text of a value
is read as the value, and that a value read from any text has a text of its own that is read as the
same value again.
-/

set_option autoImplicit false

namespace Flowgraph

open Decode

/-- The types that are written as JSON text and read from it. -/
inductive Form where
  | definition
  | step
  | work
  | result
  | schema
  | parameter
  | node
  | edge
  | canvas
  | request
  | response
  | final
  | event
  | issue
  deriving DecidableEq

namespace Form

/-- The values of a form. -/
def Carrier : Form → Type
  | definition => Definition
  | step => Step
  | work => Work
  | result => Activity.Result
  | schema => Activity.Schema
  | parameter => Activity.Parameter
  | node => Canvas.Node
  | edge => Canvas.Edge
  | canvas => Canvas
  | request => Service.Request
  | response => Service.Response
  | final => Service.Final
  | event => Event Moment
  | issue => Issue

/-- The written form of a value. -/
def encode : (form : Form) → form.Carrier → Tree
  | definition => Definition.encode
  | step => Step.encode
  | work => fun w => .object w.encode
  | result => Activity.Result.encode
  | schema => Activity.Schema.encode
  | parameter => Activity.Parameter.encode
  | node => Canvas.Node.encode
  | edge => Canvas.Edge.encode
  | canvas => Canvas.encode
  | request => Service.Request.encode
  | response => Service.Response.encode
  | final => Service.Final.encode
  | event => Event.encode
  | issue => Issue.encode

/-- Reads a value. -/
def decode : (form : Form) → Decoder form.Carrier
  | definition => Definition.decode
  | step => Step.decode
  | work => Work.decode
  | result => Activity.Result.decode
  | schema => Activity.Schema.decode
  | parameter => Activity.Parameter.decode
  | node => Canvas.Node.decode
  | edge => Canvas.Edge.decode
  | canvas => Canvas.decode
  | request => Service.Request.decode
  | response => Service.Response.decode
  | final => Service.Final.decode
  | event => Event.decode
  | issue => Issue.decode

/-- What the types of a value leave open and every value has: the keys of an object are ascending
or stand once each, and moments are dates and times of day. -/
def Proper : (form : Form) → form.Carrier → Prop
  | definition => Definition.Proper
  | step => Step.Proper
  | work => Work.Proper
  | result => Activity.Result.Proper
  | schema => Activity.Schema.Proper
  | parameter => Activity.Parameter.Proper
  | node => Canvas.Node.Proper
  | canvas => Canvas.Proper
  | request => Service.Request.Proper
  | final => Service.Final.Proper
  | event => Event.Proper
  | edge | response | issue => fun _ => True

/-- A value as it is read back. Data and default values of `null` are read as none; every other
value is read as it is. -/
def settled : (form : Form) → form.Carrier → form.Carrier
  | result => Activity.Result.settled
  | schema => Activity.Schema.settled
  | parameter => Activity.Parameter.settled
  | definition | step | work | node | edge | canvas | request | response | final | event | issue =>
    id

/-- How deep the written form of a value can be although it was read from a shallower one, in
which fields were left out. -/
def floor : Form → Nat
  | edge | response | event | issue | result => 1
  | step | work | final => 2
  | node | parameter => 3
  | definition => 4
  | schema | canvas | request => 5

theorem faithful (form : Form) :
    Faithful form.encode form.decode form.Proper form.settled form.floor := by
  cases form with
  | definition => exact Definition.faithful
  | step => exact Step.faithful
  | work => exact Work.faithful
  | result => exact Activity.Result.faithful
  | schema => exact Activity.Schema.faithful
  | parameter => exact Activity.Parameter.faithful
  | node => exact Canvas.Node.faithful
  | edge => exact Canvas.Edge.faithful
  | canvas => exact Canvas.faithful
  | request => exact Service.Request.faithful
  | response => exact Service.Response.faithful
  | final => exact Service.Final.faithful
  | event => exact Event.faithful
  | issue => exact Issue.faithful

theorem floor_le (form : Form) : form.floor ≤ Json.Reader.depthLimit := by
  cases form <;> decide

/-- The JSON text of a value. -/
def text (form : Form) (v : form.Carrier) : String := Json.compact (form.encode v)

/-- Whether each binary number in a value has a text that is read as the number. -/
def FloatsReadBack (form : Form) (v : form.Carrier) : Prop :=
  ∀ x, Tree.number (.float x) ∈ (form.encode v).leaves → x.ReadsBack

/-- **The wire format loses nothing.** The text of a value that is not too deep is read as the
value, data and default values of `null` apart. A value that has been read from any text, no matter
how that was written, is read from its own text as the same value. -/
theorem roundTrip (form : Form) :
    (∀ v, form.Proper v → (form.encode v).depth ≤ 127 → form.FloatsReadBack v →
      ofJson form.decode (form.text v) = .ok (form.settled v)) ∧
    ∀ given v, ofJson form.decode given = .ok v → form.FloatsReadBack v →
      ofJson form.decode (form.text v) = .ok v :=
  ⟨fun _ hproper hdepth hfloats => form.faithful.ofJson_compact hproper hdepth hfloats,
    fun _ _ hread hfloats => form.faithful.ofJson_again form.floor_le hread hfloats⟩

/-- A parameter that takes numbers from one half on, with a default value of `null`. -/
def share : Activity.Parameter where
  name := "share"
  label := "Share"
  kind := .number (some ⟨false, 1022 * fractionSize, by decide⟩) none none
  default := some .null

theorem roundTrip_share :
    parameter.Proper share ∧ (parameter.encode share).depth ≤ 127 ∧
      parameter.FloatsReadBack share ∧ parameter.FloatsReadBack (parameter.settled share) ∧
      parameter.settled share = { share with default := none } ∧
      ofJson parameter.decode (parameter.text share) = .ok (parameter.settled share) ∧
      ofJson parameter.decode (parameter.text (parameter.settled share)) =
        .ok (parameter.settled share) := by
  have hproper : parameter.Proper share := fun v hv => by
    obtain rfl := Option.some.inj hv
    trivial
  have hdepth : (parameter.encode share).depth ≤ 127 := by decide
  have hleaves : (parameter.encode share).leaves = [.string "share", .string "Share",
    .string "number", .number (.float ⟨false, 1022 * fractionSize, by decide⟩), .null] := rfl
  have hsettled : (parameter.encode (parameter.settled share)).leaves = [.string "share",
    .string "Share", .string "number", .number (.float ⟨false, 1022 * fractionSize, by decide⟩)] :=
    rfl
  have hhalf : Binary64.ReadsBack ⟨false, 1022 * fractionSize, by decide⟩ := by decide +kernel
  have hfloats : parameter.FloatsReadBack share := fun x hx => by
    obtain rfl : x = _ := by simpa [hleaves] using hx
    exact hhalf
  have hfloats' : parameter.FloatsReadBack (parameter.settled share) := fun x hx => by
    obtain rfl : x = _ := by simpa [hsettled] using hx
    exact hhalf
  have hread := (roundTrip parameter).1 share hproper hdepth hfloats
  exact ⟨hproper, hdepth, hfloats, hfloats', rfl, hread,
    (roundTrip parameter).2 (parameter.text share) (parameter.settled share) hread hfloats'⟩

end Form

end Flowgraph
