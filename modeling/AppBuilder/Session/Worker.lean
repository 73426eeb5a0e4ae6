import AppBuilder.Session.Basic

/-!
A session that works in the background.

A caller sends requests and later asks for the responses, in any order. The session
handles the requests one after another in the order they were sent. A response that comes
in while the caller waits for another one is kept until it is asked for. `Step` has every
interleaving of one caller and the session, each step with what happens in it;
`SessionWorker.wait` lets the session go on until it has given the response.
-/

namespace AppBuilder

/-- A caller and a session. -/
structure SessionWorker where
  /-- The number of the last request. -/
  sent : Nat
  /-- Requests on their way to the session. -/
  requests : List Request
  session : Session
  /-- Responses on their way to the caller. -/
  responses : List Response
  /-- Responses that came in and were not asked for. -/
  pending : Dict Response

namespace SessionWorker

/-- A worker without requests. -/
def start (s : Session) : SessionWorker := ⟨0, [], s, [], .empty⟩

/-! ### Requests -/

/-- Send a request; the first part is its id, which counts the requests. -/
def send (w : SessionWorker) (body : RequestBody) : String × SessionWorker :=
  let id := digitsText (w.sent + 1)
  (id, { w with sent := w.sent + 1, requests := w.requests ++ [⟨id, body⟩] })

/-- Let the session handle the next request, if there is one, in some time. -/
def work (w : SessionWorker) (nanos : Nat) : Option SessionWorker :=
  match w.requests with
  | [] => none
  | r :: requests =>
    let (response, session) := w.session.handle r nanos
    some { w with requests, session, responses := w.responses ++ [response] }

/-! ### Responses -/

/-- Take the response of an id out of those kept. -/
def claim (w : SessionWorker) (id : String) : SessionWorker :=
  { w with pending := w.pending.erase id }

/-- Take the next response in; it is kept unless it has the id that the caller waits
for. -/
def receive (w : SessionWorker) (id : String) (response : Response) (rest : List Response) :
    SessionWorker :=
  { w with
    responses := rest
    pending := if response.id = id then w.pending else w.pending.insert response.id response }

/-- Wait for the response of an id, the session taking some time for each request; there
is none when no request of the id is left. -/
def wait (w : SessionWorker) (id : String) (nanos : Nat) : Option (Response × SessionWorker) :=
  match w.pending.get? id with
  | some response => some (response, w.claim id)
  | none =>
    match _hr : w.responses with
    | response :: rest =>
      let w' := w.receive id response rest
      if response.id = id then some (response, w') else w'.wait id nanos
    | [] =>
      match _hw : w.work nanos with
      | none => none
      | some w' => w'.wait id nanos
termination_by 2 * w.requests.length + w.responses.length
decreasing_by
  · simp_all [receive]
  · unfold work at _hw
    split at _hw
    · simp at _hw
    · simp only [Option.some.injEq] at _hw
      subst _hw
      simp_all
      omega

/-! ### Interleavings -/

/-- What happens in a step. -/
inductive Exchange where
  | sent (request : Request)
  | handled (response : Response)
  /-- A response came in while the caller waited for another id. -/
  | kept (id : String) (response : Response)
  | got (id : String) (response : Response)

/-- A step of the session, or a step of the caller: sending, taking in a response while it
waits for another one, and getting the one it waits for. -/
inductive Step : SessionWorker → Exchange → SessionWorker → Prop where
  | send (w : SessionWorker) (body : RequestBody) :
    Step w (.sent ⟨(w.send body).1, body⟩) (w.send body).2
  | work {w w' : SessionWorker} {response : Response} (nanos : Nat) :
    w.work nanos = some w' → w'.responses = w.responses ++ [response] →
    Step w (.handled response) w'
  | keep {w : SessionWorker} {response : Response} {rest : List Response} (id : String) :
    w.pending.get? id = none → w.responses = response :: rest → response.id ≠ id →
    Step w (.kept id response) (w.receive id response rest)
  | get {w : SessionWorker} {response : Response} {rest : List Response} :
    w.pending.get? response.id = none → w.responses = response :: rest →
    Step w (.got response.id response) (w.receive response.id response rest)
  | claim {w : SessionWorker} {response : Response} (id : String) :
    w.pending.get? id = some response → Step w (.got id response) (w.claim id)

end SessionWorker

end AppBuilder
