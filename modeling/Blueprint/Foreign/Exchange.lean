import Blueprint.Graph.Pin
import Blueprint.Interpreter.Basic
import Blueprint.Text.Utf8

/-!
What crosses the border to foreign code. Strings go as bytes that end at a zero, and values as JSON.
What comes in may be a null pointer or no text, and then counts as absent; what goes out may hold no
zero. `readOutput` writes a value into memory of the other side: nothing, unless all of it and the
zero behind it fit.
-/

set_option autoImplicit false

namespace Blueprint

/-- A string of foreign code: a null pointer, or memory in which it ends at the first zero. -/
abbrev ForeignText := Option Bytes

namespace ForeignText

def ofString (text : String) : ForeignText := some text.toUTF8.toList

def content (memory : Bytes) : Bytes := memory.takeWhile (· ≠ 0)

/-- The text, if it is one. -/
def text? (t : ForeignText) : Option String :=
  t.bind fun memory ↦ String.fromUTF8? ⟨(content memory).toArray⟩

/-- The text with what is none of it replaced. -/
def mended? (t : ForeignText) : Option String :=
  t.map fun memory ↦ Text.ofUtf8Mended (content memory)

/-- The JSON that the text writes, if it does. -/
def json? (t : ForeignText) : Option Json := t.text?.bind Json.ofString?

end ForeignText

/-- Checks that a text can be handed to a function of a library. -/
def passText (function text : String) : Except EngineError Unit :=
  match text.toUTF8.toList.findIdx? (· = 0) with
  | none => .ok ()
  | some position =>
    .error (.foreign function s!"nul byte found in provided data at position: {position}")

/-- The pins among what a library shows: those with a name, of kind `any` where none is told. -/
def pinsOf (shown : List (ForeignText × ForeignText)) : List PinDecl :=
  shown.filterMap fun (name, kind) ↦
    name.text?.map fun name ↦ { name, kind := kind.text?.getD "any" }

/-! ### Calls from the library -/

/-- What reading a pin comes to: what it holds, or no answer, as the host gives up or there is
none. -/
inductive HostReading where
  | holds (value : Option Value)
  | silent

/-- The JSON text of what a pin holds, if there is any. -/
def outputBytes? (read : String → String → HostReading) (node pin : ForeignText) :
    Option Bytes := do
  match read (← node.text?) (← pin.text?) with
  | .holds value => return (← (← value).toJson?).compact.toUTF8.toList
  | .silent => none

/-- Reads a pin into memory with some capacity: answers the length of the text, or -1 if there is
none, and the memory afterwards. -/
def readOutput (read : String → String → HostReading) (node pin : ForeignText)
    (memory : Option Bytes) (capacity : Nat) : Int × Option Bytes :=
  match outputBytes? read node pin with
  | none => (-1, memory)
  | some text =>
    (text.length, memory.map fun memory ↦
      if text.length < capacity then text ++ 0 :: memory.drop (text.length + 1) else memory)

/-- What a library asks of the host of a run. -/
inductive HostRequest where
  | dispatched (scope : Nat)
  | completed (scope : Nat)
  | invoke (scope : Nat) (node kind params : ForeignText)
  | bind (node pin value : ForeignText)
  /-- The memory is the library's own, which may pass a null pointer all the same. -/
  | read (node pin : ForeignText) (memory : Bytes) (points : Bool) (capacity : Nat)

/-- The callback that a request comes to: none if a string that it needs is missing. Params that
are no JSON count as `null`, while a bound value has to be JSON. -/
def HostRequest.callback? : HostRequest → Option Callback
  | .dispatched scope => some (.dispatched scope)
  | .completed scope => some (.completed scope)
  | .invoke scope node kind params => do
    return .invoke
      { scope, node := ← node.text?, kind := ← kind.text?, params := params.json?.getD .null }
  | .bind node pin value => do
    return .bind (← node.text?) (← pin.text?) (.ofJson (← value.json?))
  | .read .. => none

end Blueprint
