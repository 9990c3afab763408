import SqlRecord.Payload.Basic

/-!
# Framed payloads

A payload is stored as the length of its CBOR body in four bytes, most significant first, and then
the body. The length is compared before the body is looked at, so a payload that was cut short or
padded never decodes.
-/

namespace SqlRecord

namespace Payload

/-- The bytes that hold the length of the body. -/
def headerSize : Nat := 4

/-- A body behind its length. -/
def frame (body : List UInt8) : Except SerializeFault (List UInt8) :=
  if body.length < 0x100000000 then .ok (Cbor.bigEndian headerSize body.length ++ body)
  else .error .tooLong

/-- The body of framed bytes, when the length agrees. -/
def unframe (bytes : List UInt8) : Except DeserializeFault (List UInt8) :=
  if bytes.length < headerSize then .error (.headerCut bytes.length)
  else
    let declared := Cbor.ofBigEndian (bytes.take headerSize)
    let body := bytes.drop headerSize
    if declared = body.length then .ok body else .error (.lengthMismatch declared body.length)

/-- The framed bytes of a payload. -/
def serialize (t : PayloadType) (v : t.Carrier) : Except SerializeFault (List UInt8) := do
  frame (← t.toItem v).write

/-- The payload of framed bytes. -/
def deserialize (t : PayloadType) (bytes : List UInt8) : Except DeserializeFault t.Carrier := do
  match (Cbor.read? (← unframe bytes)).bind t.ofItem? with
  | some v => return v
  | none => throw .malformedBody

end Payload

end SqlRecord
