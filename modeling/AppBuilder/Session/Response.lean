import AppBuilder.Evaluation.Error
import AppBuilder.Session.Request

/-!
Responses of an evaluation session.

A response bears the id of its request and tells how long the request took. Data that
cannot be written is answered with an error that has the summary of the request as its
context.
-/

namespace AppBuilder

/-- The answer to a request. -/
structure Response where
  id : String
  data : Json
  timeTaken : String

namespace Response

/-- A time in nanoseconds as milliseconds with two places. The seconds are a
floating-point number first. -/
def millisText (nanos : Nat) : String :=
  let seconds := Float.ofNat (nanos / 1000000000) + Float.ofNat (nanos % 1000000000) / 1e9
  fixedText 2 (seconds * 1000)

/-- The answer to a request that cannot be written, for a reason. -/
def unwritable (r : Request) (reason : String) : Json :=
  .object [("errors",
    .array [((EvalError.mk .unwritable reason none none).withContext r.summary).toJson])]

/-- The response to a request: data, or the reason why it cannot be written. -/
def ofOutcome (r : Request) (outcome : Except String Json) (nanos : Nat) : Response :=
  ⟨r.id,
    match outcome with
    | .ok data => data
    | .error reason => unwritable r reason,
    millisText nanos⟩

def toJson (r : Response) : Json :=
  .object [("requestId", .string r.id), ("responseData", r.data),
    ("timeTaken", .string r.timeTaken)]

end Response

end AppBuilder
