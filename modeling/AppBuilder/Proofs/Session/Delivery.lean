import AppBuilder.Session.Worker
import AppBuilder.Trace
import Mathlib.Data.List.Nodup

/-!
Every response goes to its request.

The session works through the requests in the order they were sent, so the responses that
were given, kept and not taken in yet are, in the order they were made, the answers of the
session to a first part of the requests (`Sound`). The ids tell the requests apart, so a
response that was not given is still on its way to the caller, and a caller that waits for
it gets it (`Delivers`).

Main statement: `responses_match`.
-/

namespace AppBuilder

theorem digitsText_injective {m n : Nat} (h : digitsText m = digitsText n) : m = n := by
  have digits : Nat.toDigits 10 m = Nat.toDigits 10 n := String.ofList_inj.mp h
  rw [← Nat.ofDigitChars_ten_toDigits (n := m), digits, Nat.ofDigitChars_ten_toDigits]

/-! ### A session alone -/

/-- The data of a response under its id. -/
def Response.entry (r : Response) : String × Json := (r.id, r.data)

namespace Session

/-- The session after it handled requests one after another. -/
def handleAll (s : Session) : List Request → Session
  | [] => s
  | r :: rest => (s.answer r.body).2.handleAll rest

/-- The data of the responses to requests that the session handles one after another, each
taking some time and under its id. -/
def answers (s : Session) (nanos : Nat) : List Request → List (String × Json)
  | [] => []
  | r :: rest => (s.handle r nanos).1.entry :: (s.handle r nanos).2.answers nanos rest

/-- How long a request takes makes no difference to its data. -/
theorem entry_handle (s : Session) (r : Request) (nanos : Nat) :
    (s.handle r nanos).1.entry = (r.id, (s.answer r.body).1) := rfl

theorem handle_snd (s : Session) (r : Request) (nanos : Nat) :
    (s.handle r nanos).2 = (s.answer r.body).2 := rfl

variable (s : Session) (nanos : Nat) (front : List Request)

theorem handleAll_snoc (r : Request) :
    s.handleAll (front ++ [r]) = ((s.handleAll front).answer r.body).2 := by
  induction front generalizing s with
  | nil => rfl
  | cons first rest ih => exact ih _

theorem answers_append (back : List Request) :
    s.answers nanos (front ++ back) =
      s.answers nanos front ++ (s.handleAll front).answers nanos back := by
  induction front generalizing s with
  | nil => rfl
  | cons first rest ih => exact congrArg (List.cons _) (ih _)

theorem answers_snoc (r : Request) :
    s.answers nanos (front ++ [r]) =
      s.answers nanos front ++ [(r.id, ((s.handleAll front).answer r.body).1)] :=
  s.answers_append nanos front [r]

theorem ids_answers : (s.answers nanos front).map Prod.fst = front.map Request.id := by
  induction front generalizing s with
  | nil => rfl
  | cons first rest ih => exact congrArg (List.cons _) (ih _)

end Session

namespace SessionWorker

/-! ### What a history tells -/

namespace Exchange

/-- The request that is sent. -/
def sent? : Exchange → Option Request
  | .sent request => some request
  | _ => none

/-- The response that the session makes. -/
def handled? : Exchange → Option Response
  | .handled response => some response
  | _ => none

/-- The response that the caller gets or keeps. -/
def received? : Exchange → Option Response
  | .kept _ response | .got _ response => some response
  | _ => none

/-- The id that the caller waited for, with the response that it gets. -/
def given? : Exchange → Option (String × Response)
  | .got id response => some (id, response)
  | _ => none

end Exchange

/-- The requests, oldest first. -/
def sentIn (h : List Exchange) : List Request := h.filterMap Exchange.sent?

/-- The responses that the session made, oldest first. -/
def handledIn (h : List Exchange) : List Response := h.filterMap Exchange.handled?

/-- The responses that came to the caller; one that was kept may be there twice. -/
def receivedIn (h : List Exchange) : List Response := h.filterMap Exchange.received?

/-- What the waits for an id gave, oldest first. -/
def givenIn (h : List Exchange) : List (String × Response) := h.filterMap Exchange.given?

section Views

variable (h : List Exchange) (what : Exchange)

@[simp] theorem sentIn_snoc : sentIn (h ++ [what]) = sentIn h ++ what.sent?.toList :=
  filterMap_snoc _ _ _

@[simp] theorem handledIn_snoc :
    handledIn (h ++ [what]) = handledIn h ++ what.handled?.toList :=
  filterMap_snoc _ _ _

@[simp] theorem receivedIn_snoc :
    receivedIn (h ++ [what]) = receivedIn h ++ what.received?.toList :=
  filterMap_snoc _ _ _

@[simp] theorem givenIn_snoc : givenIn (h ++ [what]) = givenIn h ++ what.given?.toList :=
  filterMap_snoc _ _ _

end Views

/-! ### Conservation -/

/-- The requests that are done are answered as by the session alone, and every response is
on its way, kept for the caller or given to it. -/
structure Sound (s : Session) (h : List Exchange) (done : List Request) (taken : List Response)
    (w : SessionWorker) : Prop where
  ids : (sentIn h).map Request.id = (List.range' 1 w.sent).map digitsText
  order : sentIn h = done ++ w.requests
  session : w.session = s.handleAll done
  handled : handledIn h = taken ++ w.responses
  answered (nanos : Nat) : (handledIn h).map Response.entry = s.answers nanos done
  received (response : Response) : response ∈ receivedIn h ↔ response ∈ taken
  given (id : String) (response : Response) :
    (id, response) ∈ givenIn h → response ∈ taken ∧ response.id = id
  once : ((givenIn h).map Prod.fst).Nodup
  pending (id : String) (response : Response) : w.pending.get? id = some response ↔
    response ∈ taken ∧ response.id = id ∧ id ∉ (givenIn h).map Prod.fst

theorem work_cases {w w' : SessionWorker} {nanos : Nat} (work : w.work nanos = some w') :
    ∃ r rest, w.requests = r :: rest ∧
      w' = { w with
        requests := rest
        session := (w.session.handle r nanos).2
        responses := w.responses ++ [(w.session.handle r nanos).1] } := by
  unfold SessionWorker.work at work
  split at work
  · simp at work
  · exact ⟨_, _, ‹_›, (Option.some.inj work).symm⟩

namespace Sound

variable {s : Session} {h : List Exchange} {done : List Request} {taken : List Response}
  {w w' : SessionWorker} {what : Exchange}

theorem start (s : Session) : Sound s [] [] [] (.start s) where
  ids := rfl
  order := rfl
  session := rfl
  handled := rfl
  answered := fun _ => rfl
  received := fun _ => .rfl
  given := by simp [givenIn]
  once := .nil
  pending := by simp [SessionWorker.start]

theorem nodup_sent (sound : Sound s h done taken w) : ((sentIn h).map Request.id).Nodup := by
  rw [sound.ids]
  exact List.Nodup.map (fun _ _ => digitsText_injective) List.nodup_range'

theorem ids_handled (sound : Sound s h done taken w) :
    (taken ++ w.responses).map Response.id = done.map Request.id := by
  rw [← s.ids_answers 0, ← sound.answered, ← sound.handled, List.map_map]
  rfl

theorem nodup_handled (sound : Sound s h done taken w) :
    ((taken ++ w.responses).map Response.id).Nodup := by
  have all := sound.nodup_sent
  rw [sound.order, List.map_append] at all
  exact sound.ids_handled ▸ all.of_append_left

theorem once_got (sound : Sound s h done taken w) {id : String} (response : Response)
    (new : id ∉ (givenIn h).map Prod.fst) :
    ((givenIn (h ++ [.got id response])).map Prod.fst).Nodup := by
  rw [givenIn_snoc, List.map_append]
  refine List.nodup_append.mpr
    ⟨sound.once, List.nodup_singleton id, fun old mem last hlast eq => ?_⟩
  obtain rfl : last = id := List.mem_singleton.mp hlast
  exact new (eq ▸ mem)

section Next

variable {response : Response} {rest : List Response}

/-- A response that is on its way has not come in before, nor was it given. -/
theorem ne_of_taken (sound : Sound s h done taken w) (next : w.responses = response :: rest)
    {earlier : Response} (mem : earlier ∈ taken) : earlier.id ≠ response.id := by
  have distinct := sound.nodup_handled
  rw [next, List.map_append, List.map_cons] at distinct
  exact (List.nodup_append.mp distinct).2.2 _ (List.mem_map_of_mem mem) _ List.mem_cons_self

theorem not_given (sound : Sound s h done taken w) (next : w.responses = response :: rest) :
    response.id ∉ (givenIn h).map Prod.fst := by
  intro mem
  obtain ⟨⟨id, earlier⟩, given, same⟩ := List.mem_map.mp mem
  obtain ⟨old, hid⟩ := sound.given id earlier given
  exact sound.ne_of_taken next old (hid.trans same)

end Next

theorem send (sound : Sound s h done taken w) (body : RequestBody) :
    Sound s (h ++ [.sent ⟨(w.send body).1, body⟩]) done taken (w.send body).2 where
  ids := by
    simp [SessionWorker.send, Exchange.sent?, sound.ids, List.range'_1_concat, Nat.add_comm]
  order := by simp [SessionWorker.send, Exchange.sent?, sound.order]
  session := sound.session
  handled := by simp [SessionWorker.send, Exchange.handled?, sound.handled]
  answered := by simpa [Exchange.handled?] using sound.answered
  received := by simpa [Exchange.received?] using sound.received
  given := by simpa [Exchange.given?] using sound.given
  once := by simpa [Exchange.given?] using sound.once
  pending := by simpa [SessionWorker.send, Exchange.given?] using sound.pending

theorem work (sound : Sound s h done taken w) {r : Request} {rest : List Request} (nanos : Nat)
    (next : w.requests = r :: rest) :
    Sound s (h ++ [.handled (w.session.handle r nanos).1]) (done ++ [r]) taken
      { w with
        requests := rest
        session := (w.session.handle r nanos).2
        responses := w.responses ++ [(w.session.handle r nanos).1] } where
  ids := by simpa [Exchange.sent?] using sound.ids
  order := by simp [Exchange.sent?, sound.order, next]
  session := by rw [Session.handle_snd, Session.handleAll_snoc, sound.session]
  handled := by simp [Exchange.handled?, sound.handled]
  answered := fun time => by
    simp [Exchange.handled?, sound.answered time, Session.answers_snoc, Session.entry_handle,
      sound.session]
  received := by simpa [Exchange.received?] using sound.received
  given := by simpa [Exchange.given?] using sound.given
  once := by simpa [Exchange.given?] using sound.once
  pending := by simpa [Exchange.given?] using sound.pending

theorem keep (sound : Sound s h done taken w) {response : Response} {rest : List Response}
    {id : String} (next : w.responses = response :: rest) (other : response.id ≠ id) :
    Sound s (h ++ [.kept id response]) done (taken ++ [response])
      (w.receive id response rest) where
  ids := by simpa [SessionWorker.receive, Exchange.sent?] using sound.ids
  order := by simpa [SessionWorker.receive, Exchange.sent?] using sound.order
  session := sound.session
  handled := by simp [SessionWorker.receive, Exchange.handled?, sound.handled, next]
  answered := by simpa [Exchange.handled?] using sound.answered
  received := by simp [Exchange.received?, sound.received]
  given := fun id' earlier mem => by
    obtain ⟨old, same⟩ := sound.given id' earlier (by simpa [Exchange.given?] using mem)
    exact ⟨List.mem_append_left _ old, same⟩
  once := by simpa [Exchange.given?] using sound.once
  pending := fun id' earlier => by
    simp only [SessionWorker.receive, if_neg other, Dict.get?_insert, givenIn_snoc,
      Exchange.given?, Option.toList_none, List.append_nil, List.mem_append, List.mem_singleton]
    split
    · rename_i same
      constructor
      · intro eq
        obtain rfl := Option.some.inj eq
        exact ⟨.inr rfl, same, same ▸ sound.not_given next⟩
      · rintro ⟨mem | rfl, hid, -⟩
        · exact absurd (hid.trans same.symm) (sound.ne_of_taken next mem)
        · rfl
    · rename_i ne
      rw [sound.pending]
      refine and_congr_left fun ⟨hid, _⟩ => ⟨.inl, fun mem => mem.resolve_right ?_⟩
      exact fun eq => ne (eq ▸ hid)

theorem get (sound : Sound s h done taken w) {response : Response} {rest : List Response}
    (absent : w.pending.get? response.id = none) (next : w.responses = response :: rest) :
    Sound s (h ++ [.got response.id response]) done (taken ++ [response])
      (w.receive response.id response rest) where
  ids := by simpa [SessionWorker.receive, Exchange.sent?] using sound.ids
  order := by simpa [SessionWorker.receive, Exchange.sent?] using sound.order
  session := sound.session
  handled := by simp [SessionWorker.receive, Exchange.handled?, sound.handled, next]
  answered := by simpa [Exchange.handled?] using sound.answered
  received := by simp [Exchange.received?, sound.received]
  given := fun id earlier mem => by
    simp only [givenIn_snoc, Exchange.given?, Option.toList_some, List.mem_append,
      List.mem_singleton, Prod.mk.injEq] at mem
    rcases mem with mem | ⟨rfl, rfl⟩
    · exact (sound.given id earlier mem).imp_left (List.mem_append_left _)
    · simp
  once := sound.once_got response (sound.not_given next)
  pending := fun id earlier => by
    simp only [SessionWorker.receive, if_true, givenIn_snoc, Exchange.given?, Option.toList_some,
      List.map_append, List.mem_append, List.mem_singleton, List.map_cons, List.map_nil, not_or]
    by_cases same : id = response.id
    · simp [same, absent]
    · rw [sound.pending]
      constructor
      · exact fun ⟨mem, hid, new⟩ => ⟨.inl mem, hid, new, same⟩
      · rintro ⟨mem | rfl, hid, new, -⟩
        · exact ⟨mem, hid, new⟩
        · exact absurd hid.symm same

theorem claim (sound : Sound s h done taken w) {id : String} {response : Response}
    (kept : w.pending.get? id = some response) :
    Sound s (h ++ [.got id response]) done taken (w.claim id) where
  ids := by simpa [SessionWorker.claim, Exchange.sent?] using sound.ids
  order := by simpa [SessionWorker.claim, Exchange.sent?] using sound.order
  session := sound.session
  handled := by simpa [SessionWorker.claim, Exchange.handled?] using sound.handled
  answered := by simpa [Exchange.handled?] using sound.answered
  received := fun other => by
    have mem := ((sound.pending id response).mp kept).1
    simp only [receivedIn_snoc, Exchange.received?, Option.toList_some, List.mem_append,
      List.mem_singleton, sound.received]
    exact ⟨fun h => h.elim (·) (· ▸ mem), .inl⟩
  given := fun id' other mem => by
    simp only [givenIn_snoc, Exchange.given?, Option.toList_some, List.mem_append,
      List.mem_singleton, Prod.mk.injEq] at mem
    rcases mem with mem | ⟨rfl, rfl⟩
    · exact sound.given id' other mem
    · obtain ⟨mem, hid, -⟩ := (sound.pending id' other).mp kept
      exact ⟨mem, hid⟩
  once := sound.once_got response ((sound.pending id response).mp kept).2.2
  pending := fun id' other => by
    simp only [SessionWorker.claim, Dict.get?_erase, givenIn_snoc, Exchange.given?,
      Option.toList_some, List.map_append, List.mem_append, List.map_cons, List.map_nil,
      List.mem_singleton, not_or]
    split
    · rename_i same
      simp [same]
    · rename_i ne
      rw [sound.pending]
      simp [Ne.symm ne]

theorem step (sound : Sound s h done taken w) (step : Step w what w') :
    ∃ done' taken', Sound s (h ++ [what]) done' taken' w' := by
  cases step with
  | send body => exact ⟨_, _, sound.send body⟩
  | work nanos work responses =>
    obtain ⟨r, rest, next, rfl⟩ := work_cases work
    obtain rfl := List.singleton_inj.mp (List.append_cancel_left responses)
    exact ⟨_, _, sound.work nanos next⟩
  | keep id _ next other => exact ⟨_, _, sound.keep next other⟩
  | get absent next => exact ⟨_, _, sound.get absent next⟩
  | claim id kept => exact ⟨_, _, sound.claim kept⟩

end Sound

theorem sound_of_trace {s : Session} {h : List Exchange} {w : SessionWorker}
    (trace : Trace Step (.start s) h w) : ∃ done taken, Sound s h done taken w := by
  induction trace with
  | nil => exact ⟨[], [], .start s⟩
  | snoc _ step ih =>
    obtain ⟨done, taken, sound⟩ := ih
    exact sound.step step

/-! ### Waiting -/

/-- What can happen while the caller waits for the response of an id. -/
def Exchange.WaitsFor (id : String) : Exchange → Prop
  | .sent _ => False
  | .handled _ => True
  | .kept id' _ | .got id' _ => id' = id

/-- A caller that waits for the response of an id gets it: something can happen, and
whatever happens is that it gets the response or leads on to it. -/
inductive Delivers (id : String) : SessionWorker → Prop where
  | intro {w : SessionWorker} :
    (∃ what w', Step w what w' ∧ what.WaitsFor id) →
    (∀ what w', Step w what w' → what.WaitsFor id → (∀ response, what ≠ .got id response) →
      Delivers id w') →
    Delivers id w

/-- A bound on what can happen before the caller gets the response that it waits for. -/
def waitLeft (w : SessionWorker) : Nat := 2 * w.requests.length + w.responses.length

/-- The caller asked for an id and did not get its response yet. -/
def Outstanding (h : List Exchange) (id : String) : Prop :=
  id ∈ (sentIn h).map Request.id ∧ id ∉ (givenIn h).map Prod.fst

section Waiting

variable {s : Session} {h : List Exchange} {w w' : SessionWorker} {what : Exchange} {id : String}

theorem waitLeft_of_step (step : Step w what w') (waits : what.WaitsFor id)
    (notYet : ∀ response, what ≠ .got id response) : w'.waitLeft < w.waitLeft := by
  cases step with
  | send body => exact waits.elim
  | work nanos work _ =>
    obtain ⟨r, rest, next, rfl⟩ := work_cases work
    simp only [waitLeft, next, List.length_cons, List.length_append, List.length_nil]
    omega
  | keep id' _ next _ => simp [waitLeft, receive, next]
  | @get response _ _ _ =>
    obtain rfl : response.id = id := waits
    exact absurd rfl (notYet response)
  | @claim response id' _ =>
    obtain rfl : id' = id := waits
    exact absurd rfl (notYet response)

/-- As long as the caller waits, it stays without the response. -/
theorem Outstanding.step (out : Outstanding h id) (waits : what.WaitsFor id)
    (notYet : ∀ response, what ≠ .got id response) : Outstanding (h ++ [what]) id := by
  cases what with
  | sent _ => exact waits.elim
  | handled _ => simpa [Outstanding, Exchange.sent?, Exchange.given?] using out
  | kept _ _ => simpa [Outstanding, Exchange.sent?, Exchange.given?] using out
  | got id' response =>
    obtain rfl : id' = id := waits
    exact absurd rfl (notYet response)

theorem Sound.on_its_way {done : List Request} {taken : List Response}
    (sound : Sound s h done taken w) (out : Outstanding h id) :
    (∃ response, w.pending.get? id = some response) ∨ id ∈ w.responses.map Response.id ∨
      id ∈ w.requests.map Request.id := by
  obtain ⟨sent, new⟩ := out
  rw [sound.order, List.map_append, ← sound.ids_handled, List.map_append, List.mem_append,
    List.mem_append, or_assoc] at sent
  refine sent.imp_left fun mem => ?_
  obtain ⟨response, taken, hid⟩ := List.mem_map.mp mem
  exact ⟨response, (sound.pending id response).mpr ⟨taken, hid, new⟩⟩

theorem exists_step (trace : Trace Step (.start s) h w) (out : Outstanding h id) :
    ∃ what w', Step w what w' ∧ what.WaitsFor id := by
  obtain ⟨done, taken, sound⟩ := sound_of_trace trace
  cases kept : w.pending.get? id with
  | some response => exact ⟨_, _, .claim id kept, rfl⟩
  | none =>
    cases next : w.responses with
    | cons response rest =>
      by_cases same : response.id = id
      · exact ⟨_, _, .get (same ▸ kept) next, same⟩
      · exact ⟨_, _, .keep id kept next same, rfl⟩
    | nil =>
      cases todo : w.requests with
      | cons r rest =>
        exact ⟨_, _, .work 0 (by simp only [SessionWorker.work, todo]; rfl) rfl, trivial⟩
      | nil => simpa [kept, next, todo] using sound.on_its_way out

theorem delivers (trace : Trace Step (.start s) h w) (out : Outstanding h id) :
    Delivers id w := by
  induction left : w.waitLeft using Nat.strongRecOn generalizing h w with
  | ind n ih =>
    refine .intro (exists_step trace out) fun what w' step waits notYet => ?_
    have less := waitLeft_of_step step waits notYet
    exact ih w'.waitLeft (left ▸ less) (trace.snoc step) (out.step waits notYet) rfl

section Wait

variable {response : Response} {rest : List Response} (nanos : Nat)

theorem wait_of_kept (kept : w.pending.get? id = some response) :
    w.wait id nanos = some (response, w.claim id) := by
  rw [wait, kept]

theorem wait_of_next (absent : w.pending.get? id = none) (next : w.responses = response :: rest) :
    w.wait id nanos =
      if response.id = id then some (response, w.receive id response rest)
      else (w.receive id response rest).wait id nanos := by
  rw [wait, absent]
  simp only
  split
  · rename_i hr
    obtain ⟨rfl, rfl⟩ := List.cons.inj (hr.symm.trans next)
    rfl
  · rename_i hr
    simp [next] at hr

theorem wait_of_work (absent : w.pending.get? id = none) (quiet : w.responses = [])
    (work : w.work nanos = some w') :
    w.wait id nanos = w'.wait id nanos := by
  rw [wait, absent]
  simp only
  split
  · rename_i hr
    simp [quiet] at hr
  · split
    · simp_all
    · rename_i hw
      rw [Option.some.inj (hw.symm.trans work)]

end Wait

/-- A wait is a run that sends nothing and ends with the response. -/
theorem wait_eq (trace : Trace Step (.start s) h w) (out : Outstanding h id) (nanos : Nat) :
    ∃ response w' more, w.wait id nanos = some (response, w') ∧
      Trace Step (.start s) (h ++ more ++ [.got id response]) w' ∧
      sentIn (h ++ more) = sentIn h := by
  induction delivers trace out generalizing h with
  | @intro w _ _ ih =>
    -- one step that does not end the wait, and then the rest of the wait
    have go {what : Exchange} {w' : SessionWorker} (step : Step w what w')
        (waits : what.WaitsFor id) (notYet : ∀ response, what ≠ .got id response)
        (quiet : what.sent? = none) (same : w.wait id nanos = w'.wait id nanos) :
        ∃ response w' more, w.wait id nanos = some (response, w') ∧
          Trace Step (.start s) (h ++ more ++ [.got id response]) w' ∧
          sentIn (h ++ more) = sentIn h := by
      obtain ⟨response, w'', more, wait, run, sent⟩ :=
        ih what w' step waits notYet (trace.snoc step) (out.step waits notYet)
      refine ⟨response, w'', what :: more, same.trans wait, by simpa using run, ?_⟩
      simpa [quiet] using sent
    cases kept : w.pending.get? id with
    | some response =>
      exact ⟨response, w.claim id, [], wait_of_kept nanos kept,
        by simpa using trace.snoc (.claim id kept), by simp⟩
    | none =>
      cases next : w.responses with
      | cons response rest =>
        have wait := wait_of_next nanos kept next
        by_cases own : response.id = id
        · subst own
          exact ⟨response, w.receive response.id response rest, [], by simpa using wait,
            by simpa using trace.snoc (.get kept next), by simp⟩
        · exact go (.keep id kept next own) rfl (by simp) rfl (by simpa [own] using wait)
      | nil =>
        cases work : w.work nanos with
        | some w' =>
          have same := wait_of_work nanos kept next work
          obtain ⟨r, rest, -, rfl⟩ := work_cases work
          exact go (.work nanos work rfl) trivial (by simp) rfl same
        | none =>
          obtain ⟨done, taken, sound⟩ := sound_of_trace trace
          cases todo : w.requests with
          | nil => simpa [kept, next, todo] using sound.on_its_way out
          | cons r rest => simp [SessionWorker.work, todo] at work

end Waiting

/-! ### Responses and requests -/

/-- The responses that came to the caller are answers of the session alone. -/
theorem Sound.mem_answers {s : Session} {h : List Exchange} {done : List Request}
    {taken : List Response} {w : SessionWorker} (sound : Sound s h done taken w)
    {response : Response} (mem : response ∈ taken) (nanos : Nat) :
    response.entry ∈ s.answers nanos (sentIn h) := by
  rw [sound.order, Session.answers_append, ← sound.answered nanos, sound.handled]
  exact List.mem_append_left _ (List.mem_map_of_mem (List.mem_append_left _ mem))

/-- In every interleaving of one caller and the session, the ids of the requests are distinct,
a wait gives the response of its id, with the data that the session alone would give, and
gives it once; the caller keeps just the responses that came in and that it did not get; and
for an id that it did not get yet, a wait ends with its response. -/
theorem responses_match (s : Session) {h : List Exchange} {w : SessionWorker}
    (trace : Trace Step (.start s) h w) :
    ((sentIn h).map Request.id).Nodup ∧
    ((givenIn h).map Prod.fst).Nodup ∧
    (∀ id response, (id, response) ∈ givenIn h →
      response.id = id ∧ ∀ nanos, (id, response.data) ∈ s.answers nanos (sentIn h)) ∧
    (∀ id response, w.pending.get? id = some response ↔
      response ∈ receivedIn h ∧ response.id = id ∧ id ∉ (givenIn h).map Prod.fst) ∧
    ∀ id, Outstanding h id →
      Delivers id w ∧
      ∀ nanos, ∃ response w' more, w.wait id nanos = some (response, w') ∧
        Trace Step (.start s) (h ++ more ++ [.got id response]) w' ∧
        response.id = id ∧ (id, response.data) ∈ s.answers nanos (sentIn h) := by
  have right {h : List Exchange} {w : SessionWorker} (trace : Trace Step (.start s) h w)
      {id : String} {response : Response} (mem : (id, response) ∈ givenIn h) (nanos : Nat) :
      response.id = id ∧ (id, response.data) ∈ s.answers nanos (sentIn h) := by
    obtain ⟨done, taken, sound⟩ := sound_of_trace trace
    obtain ⟨came, rfl⟩ := sound.given id response mem
    exact ⟨rfl, sound.mem_answers came nanos⟩
  obtain ⟨done, taken, sound⟩ := sound_of_trace trace
  refine ⟨sound.nodup_sent, sound.once, fun id response mem => ⟨(right trace mem 0).1,
    fun nanos => (right trace mem nanos).2⟩, fun id response => ?_, fun id out =>
    ⟨delivers trace out, fun nanos => ?_⟩⟩
  · rw [sound.received, sound.pending]
  · obtain ⟨response, w', more, wait, run, sent⟩ := wait_eq trace out nanos
    have last : (id, response) ∈ givenIn (h ++ more ++ [.got id response]) := by
      rw [givenIn_snoc]
      exact List.mem_append_right _ (List.mem_singleton_self _)
    have own := right run last nanos
    rw [sentIn_snoc, sent] at own
    exact ⟨response, w', more, wait, run, own.1, by simpa [Exchange.sent?] using own.2⟩

/-- A session without code. -/
def bare : Session := .start {} .path

/-- The caller sends two requests and gets the response to the second one first. -/
theorem responses_match_second_first :
    ∃ h w, Trace Step (.start bare) h w ∧ (sentIn h).map Request.id = ["1", "2"] ∧
      (givenIn h).map Prod.fst = ["2"] ∧ (∃ response, w.pending.get? "1" = some response) ∧
      Delivers "1" w := by
  let first : Response := (bare.handle ⟨"1", .setup⟩ 0).1
  let second : Response := (bare.init.handle ⟨"2", .setVersion (some 2)⟩ 0).1
  let session : Session := { bare.init with version := 2 }
  have handled : Trace Step (.start bare)
      [.sent ⟨"1", .setup⟩, .sent ⟨"2", .setVersion (some 2)⟩, .handled first, .handled second]
      ⟨2, [], session, [first, second], .empty⟩ :=
    (((Trace.nil.snoc (Step.send _ .setup)).snoc (Step.send _ (.setVersion (some 2)))).snoc
      (Step.work 0 rfl rfl)).snoc (Step.work 0 rfl rfl)
  have kept : Trace Step (.start bare)
      [.sent ⟨"1", .setup⟩, .sent ⟨"2", .setVersion (some 2)⟩, .handled first, .handled second,
        .kept "2" first]
      ⟨2, [], session, [second], Dict.empty.insert "1" first⟩ :=
    handled.snoc (Step.keep "2" rfl rfl (by decide : "1" ≠ "2"))
  have trace := kept.snoc (Step.get (by decide +kernel) rfl)
  obtain ⟨-, -, -, pending, outstanding⟩ := responses_match bare trace
  have new : "1" ∉ ["2"] := by decide
  exact ⟨_, _, trace, rfl, rfl, ⟨first, (pending "1" first).mpr ⟨.head _, rfl, new⟩⟩,
    (outstanding "1" ⟨.head _, new⟩).1⟩

end SessionWorker

end AppBuilder
