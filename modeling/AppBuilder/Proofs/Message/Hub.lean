import AppBuilder.Message.Hub
import Mathlib.Data.List.Range

/-!
What an inbox holds.

The hub gives every id once. The messages taken from an inbox, followed by those still in
it, are the messages posted while its id was listening (`heard`), whoever used the hub in
between.

Main statements: `MessageHub.Attended.step` for an inbox that may still be used,
`MessageHub.Emptied.step` for one that was emptied and dropped.
-/

namespace AppBuilder.MessageHub

/-! ### Looking up an inbox -/

section Inboxes

variable (h : MessageHub) (id id' : Nat)

theorem lookup_map_inboxes (f : Nat → List Message → List Message) :
    (h.inboxes.map fun b => (b.1, f b.1 b.2)).lookup id = (h.inbox? id).map (f id) := by
  unfold inbox?
  induction h.inboxes with
  | nil => rfl
  | cons b boxes ih =>
    obtain ⟨i, box⟩ := b
    simp only [List.map_cons, List.lookup_cons, ih]
    by_cases same : id = i
    · simp [same]
    · simp [beq_false_of_ne same]

theorem inbox?_setInbox (messages : List Message) :
    (h.setInbox id messages).inbox? id' =
      if id' = id then (h.inbox? id').map fun _ => messages else h.inbox? id' := by
  have each : (fun b : Nat × List Message => if b.1 = id then (b.1, messages) else b) =
      fun b => (b.1, if b.1 = id then messages else b.2) := by
    funext b
    split <;> rfl
  have found := h.lookup_map_inboxes id' fun i box => if i = id then messages else box
  unfold inbox? setInbox at *
  rw [each, found]
  split <;> simp

theorem inbox?_post (m : Message) :
    (h.post m).inbox? id = (h.inbox? id).map fun box =>
      if h.isListener id then box ++ [m] else box := by
  have each : (fun b : Nat × List Message => if h.isListener b.1 then (b.1, b.2 ++ [m]) else b) =
      fun b => (b.1, if h.isListener b.1 then b.2 ++ [m] else b.2) := by
    funext b
    split <;> rfl
  have found := h.lookup_map_inboxes id fun i box => if h.isListener i then box ++ [m] else box
  unfold inbox? post at *
  rw [each, found]

theorem inbox?_dropInbox :
    (h.dropInbox id).inbox? id' = if id' = id then none else h.inbox? id' := by
  unfold inbox? dropInbox
  induction h.inboxes with
  | nil => simp
  | cons b boxes ih =>
    obtain ⟨i, box⟩ := b
    simp only [List.filter_cons]
    by_cases gone : i = id
    · subst gone
      by_cases same : id' = i
      · simpa [same] using ih
      · simpa [List.lookup_cons, beq_false_of_ne same, same] using ih
    · by_cases same : id' = i
      · simp [gone, same]
      · simpa [gone, List.lookup_cons, beq_false_of_ne same] using ih

theorem inbox?_listen :
    h.listen.2.inbox? id = (h.inbox? id).or (if id = h.last + 1 then some [] else none) := by
  unfold inbox? listen
  rw [List.lookup_append]
  by_cases same : id = h.last + 1
  · simp [same]
  · simp [same, List.lookup_cons, beq_false_of_ne same]

@[simp] theorem last_unlisten : (h.unlisten id).last = h.last := rfl

@[simp] theorem last_post (m : Message) : (h.post m).last = h.last := rfl

@[simp] theorem last_setInbox (messages : List Message) :
    (h.setInbox id messages).last = h.last := rfl

@[simp] theorem last_dropInbox : (h.dropInbox id).last = h.last := rfl

@[simp] theorem mem_listeners_unlisten_iff :
    id' ∈ (h.unlisten id).listeners ↔ id' ∈ h.listeners ∧ id' ≠ id := by
  simp [unlisten]

@[simp] theorem listeners_setInbox (messages : List Message) :
    (h.setInbox id messages).listeners = h.listeners := rfl

@[simp] theorem listeners_dropInbox : (h.dropInbox id).listeners = h.listeners := rfl

@[simp] theorem inbox?_unlisten : (h.unlisten id).inbox? id' = h.inbox? id' := rfl

@[simp] theorem isListener_iff : h.isListener id = true ↔ id ∈ h.listeners :=
  List.contains_iff_mem

theorem isListener_eq_false_iff : h.isListener id = false ↔ id ∉ h.listeners := by
  rw [← isListener_iff, Bool.not_eq_true]

end Inboxes

/-! ### What the uses tell -/

/-- The id that begins to listen. -/
def Use.opened? : Use → Option Nat
  | .opened id => some id
  | _ => none

def Use.posted? : Use → Option Message
  | .posted m => some m
  | _ => none

/-- The message taken from the inbox of an id. -/
def Use.taken? (id : Nat) : Use → Option Message
  | .taken id' m => if id' = id then some m else none
  | _ => none

/-- Whether an id listens after a use, when it is known whether it did before. -/
def Use.listens (id : Nat) (before : Bool) : Use → Bool
  | .opened id' => before || id' = id
  | .closed id' => before && id' ≠ id
  | _ => before

/-- The ids given, oldest first. -/
def opened (u : List Use) : List Nat := u.filterMap Use.opened?

/-- The messages posted, oldest first. -/
def posted (u : List Use) : List Message := u.filterMap Use.posted?

/-- The messages taken from the inbox of an id, oldest first. -/
def taken (id : Nat) (u : List Use) : List Message := u.filterMap (Use.taken? id)

/-- Whether an id listens after some uses. -/
def listens (id : Nat) (before : Bool) (u : List Use) : Bool := u.foldl (Use.listens id) before

/-- The messages posted while an id listens. -/
def heard (id : Nat) : Bool → List Use → List Message
  | _, [] => []
  | before, use :: u =>
    (if before then use.posted?.toList else []) ++ heard id (use.listens id before) u

section Views

variable (id : Nat) (before : Bool) (u u' : List Use) (use : Use)

@[simp] theorem opened_append : opened (u ++ u') = opened u ++ opened u' :=
  List.filterMap_append

@[simp] theorem opened_one : opened [use] = use.opened?.toList := by cases use <;> rfl

@[simp] theorem posted_append : posted (u ++ u') = posted u ++ posted u' :=
  List.filterMap_append

@[simp] theorem taken_append : taken id (u ++ u') = taken id u ++ taken id u' :=
  List.filterMap_append

@[simp] theorem taken_one : taken id [use] = (use.taken? id).toList := by
  cases taken : use.taken? id <;> simp [MessageHub.taken, taken]

@[simp] theorem listens_append :
    listens id before (u ++ u') = listens id (listens id before u) u' :=
  List.foldl_append

@[simp] theorem listens_cons :
    listens id before (use :: u) = listens id (use.listens id before) u := rfl

@[simp] theorem listens_nil : listens id before [] = before := rfl

theorem heard_append :
    heard id before (u ++ u') = heard id before u ++ heard id (listens id before u) u' := by
  induction u generalizing before with
  | nil => rfl
  | cons use u ih => simp [heard, ih]

@[simp] theorem heard_snoc : heard id before (u ++ [use]) =
    heard id before u ++ if listens id before u then use.posted?.toList else [] := by
  simp [heard_append, heard]

end Views

section Windows

variable {id : Nat} {u : List Use}

theorem listens_of_not_opened (closed : id ∉ opened u) : listens id false u = false := by
  induction u with
  | nil => rfl
  | cons use u ih =>
    cases use with
    | opened id' =>
      obtain ⟨other, rest⟩ := not_or.mp (fun mem => closed (List.mem_cons.mpr mem))
      simpa [Use.listens, Ne.symm other] using ih rest
    | _ => simpa [Use.listens] using ih closed

theorem heard_of_not_opened (closed : id ∉ opened u) : heard id false u = [] := by
  induction u with
  | nil => rfl
  | cons use u ih =>
    cases use with
    | opened id' =>
      obtain ⟨other, rest⟩ := not_or.mp (fun mem => closed (List.mem_cons.mpr mem))
      simpa [heard, Use.listens, Ne.symm other] using ih rest
    | _ => simpa [heard, Use.listens] using ih closed

/-- An id that is not closed hears everything. -/
theorem heard_of_not_closed (notClosed : Use.closed id ∉ u) : heard id true u = posted u := by
  induction u with
  | nil => rfl
  | cons use u ih =>
    obtain ⟨other, rest⟩ := not_or.mp (fun mem => notClosed (List.mem_cons.mpr mem))
    have goesOn : use.listens id true = true := by
      cases use with
      | closed id' => simpa [Use.listens] using fun same : id' = id => other (same ▸ rfl)
      | _ => rfl
    simp only [heard, if_true, goesOn, ih rest, posted, List.filterMap_cons]
    cases use.posted? <;> rfl

theorem listens_iff_not_closed (once : id ∉ opened u) :
    listens id true u = true ↔ Use.closed id ∉ u := by
  induction u with
  | nil => simp
  | cons use u ih =>
    cases use with
    | opened id' =>
      obtain ⟨-, rest⟩ := not_or.mp (fun mem => once (List.mem_cons.mpr mem))
      simpa [Use.listens] using ih rest
    | closed id' =>
      by_cases same : id' = id
      · have stays : listens id false u = false := listens_of_not_opened once
        simp [Use.listens, same, stays]
      · simpa [Use.listens, same, Ne.symm same] using ih once
    | _ => simpa [Use.listens] using ih once

end Windows

/-! ### What every use keeps -/

/-- What the uses of a hub that began empty have made of it. -/
structure Attended (u : List Use) (h : MessageHub) : Prop where
  given : opened u = List.range' 1 h.last
  fresh : ∀ id, h.last < id → id ∉ h.listeners ∧ h.inbox? id = none ∧ taken id u = []
  present : ∀ id ∈ opened u, Use.dropped id ∉ u → ∃ box, h.inbox? id = some box
  listener : ∀ id box, h.inbox? id = some box → (id ∈ h.listeners ↔ listens id false u = true)
  kept : ∀ id box, h.inbox? id = some box → taken id u ++ box = heard id false u

namespace Attended

variable {u : List Use} {h h' : MessageHub} {use : Use}

theorem empty : Attended [] .empty where
  given := rfl
  fresh := fun _ _ => ⟨List.not_mem_nil, rfl, rfl⟩
  present := by simp [opened]
  listener := by simp [inbox?, MessageHub.empty]
  kept := by simp [inbox?, MessageHub.empty]

theorem le_last (attended : Attended u h) {id : Nat} (mem : id ∈ opened u) : id ≤ h.last := by
  rw [attended.given, List.mem_range'_1] at mem
  omega

theorem nodup_opened (attended : Attended u h) : (opened u).Nodup :=
  attended.given ▸ List.nodup_range'

theorem listen (attended : Attended u h) :
    Attended (u ++ [.opened h.listen.1]) h.listen.2 := by
  obtain ⟨notListening, noInbox, notTaken⟩ := attended.fresh (h.last + 1) (Nat.lt_succ_self _)
  have new : h.last + 1 ∉ opened u := fun mem => absurd (attended.le_last mem) (by omega)
  constructor
  case given =>
    simp [Use.opened?, attended.given, MessageHub.listen, List.range'_concat, Nat.add_comm]
  case fresh =>
    intro id later
    obtain ⟨notListening, noInbox, notTaken⟩ :=
      attended.fresh id (Nat.lt_of_succ_lt (by simpa [MessageHub.listen] using later))
    have other : id ≠ h.last + 1 := Nat.ne_of_gt later
    refine ⟨?_, ?_, ?_⟩
    · simpa [MessageHub.listen, other] using notListening
    · simp [inbox?_listen, noInbox, other]
    · simpa [Use.taken?] using notTaken
  case present =>
    intro id mem kept
    simp only [inbox?_listen]
    rcases List.mem_append.mp (opened_append u _ ▸ mem) with old | now
    · obtain ⟨box, found⟩ := attended.present id old fun gone => kept (List.mem_append_left _ gone)
      exact ⟨box, by simp [found]⟩
    · obtain rfl : id = h.last + 1 := by simpa [Use.opened?, MessageHub.listen] using now
      exact ⟨[], by simp [noInbox]⟩
  case listener =>
    intro id box found
    by_cases same : id = h.last + 1
    · simp [same, MessageHub.listen, Use.listens]
    · have before : h.inbox? id = some box := by simpa [inbox?_listen, same] using found
      simpa [MessageHub.listen, Use.listens, same, Ne.symm same] using
        attended.listener id box before
  case kept =>
    intro id box found
    by_cases same : id = h.last + 1
    · subst same
      obtain rfl : [] = box := by simpa [inbox?_listen, noInbox] using found
      simp [Use.taken?, Use.posted?, notTaken, heard_of_not_opened new]
    · have before : h.inbox? id = some box := by simpa [inbox?_listen, same] using found
      simpa [Use.taken?, Use.posted?] using attended.kept id box before

theorem unlisten (attended : Attended u h) (id : Nat) :
    Attended (u ++ [.closed id]) (h.unlisten id) := by
  constructor
  case given => simpa [Use.opened?] using attended.given
  case fresh =>
    intro id' later
    obtain ⟨notListening, noInbox, notTaken⟩ := attended.fresh id' later
    refine ⟨fun mem => notListening (List.mem_of_mem_filter mem), noInbox, ?_⟩
    simpa [Use.taken?] using notTaken
  case present => simpa [Use.opened?] using attended.present
  case listener =>
    intro id' box found
    simp [Use.listens, ← attended.listener id' box found, eq_comm (a := id)]
  case kept => simpa [Use.taken?, Use.posted?] using attended.kept

theorem post (attended : Attended u h) (m : Message) :
    Attended (u ++ [.posted m]) (h.post m) := by
  constructor
  case given => simpa [Use.opened?] using attended.given
  case fresh =>
    intro id later
    obtain ⟨notListening, noInbox, notTaken⟩ := attended.fresh id later
    refine ⟨fun mem => notListening (List.mem_of_mem_filter mem), ?_, ?_⟩
    · simp [inbox?_post, noInbox]
    · simpa [Use.taken?] using notTaken
  case present =>
    intro id mem kept
    obtain ⟨box, found⟩ := attended.present id (by simpa [Use.opened?] using mem)
      fun gone => kept (List.mem_append_left _ gone)
    simp [inbox?_post, found]
  case listener =>
    intro id box found
    obtain ⟨old, before, -⟩ := Option.map_eq_some_iff.mp (inbox?_post h id m ▸ found)
    simpa [MessageHub.post, Use.listens, before] using attended.listener id old before
  case kept =>
    intro id box found
    obtain ⟨old, before, rfl⟩ := Option.map_eq_some_iff.mp (inbox?_post h id m ▸ found)
    have kept := attended.kept id old before
    have listener := attended.listener id old before
    by_cases on : id ∈ h.listeners
    · simp [Use.taken?, Use.posted?, ← kept, listener.mp on, (isListener_iff h id).mpr on]
    · have off : listens id false u = false := by simpa [on] using listener
      simpa [Use.taken?, Use.posted?, off, on] using kept

theorem take (attended : Attended u h) {id : Nat} {m : Message} {rest : List Message}
    (next : h.inbox? id = some (m :: rest)) :
    Attended (u ++ [.taken id m]) (h.setInbox id rest) := by
  constructor
  case given => simpa [Use.opened?] using attended.given
  case fresh =>
    intro id' later
    obtain ⟨notListening, noInbox, notTaken⟩ := attended.fresh id' later
    have other : id ≠ id' := by
      rintro rfl
      simp [noInbox] at next
    refine ⟨notListening, ?_, ?_⟩
    · simp [inbox?_setInbox, noInbox]
    · simpa [Use.taken?, other] using notTaken
  case present =>
    intro id' mem kept
    obtain ⟨box, found⟩ := attended.present id' (by simpa [Use.opened?] using mem)
      fun gone => kept (List.mem_append_left _ gone)
    by_cases same : id' = id
    · exact ⟨rest, by simp [inbox?_setInbox, same, next]⟩
    · exact ⟨box, by simp [inbox?_setInbox, same, found]⟩
  case listener =>
    intro id' box found
    by_cases same : id' = id
    · simpa [Use.listens, same] using attended.listener id _ next
    · have before : h.inbox? id' = some box := by simpa [inbox?_setInbox, same] using found
      simpa [Use.listens] using attended.listener id' box before
  case kept =>
    intro id' box found
    by_cases same : id' = id
    · subst same
      obtain rfl : rest = box := by simpa [inbox?_setInbox, next] using found
      simpa [Use.taken?, Use.posted?] using attended.kept id' _ next
    · have before : h.inbox? id' = some box := by simpa [inbox?_setInbox, same] using found
      simpa [Use.taken?, Use.posted?, Ne.symm same] using attended.kept id' box before

theorem drop (attended : Attended u h) (id : Nat) :
    Attended (u ++ [.dropped id]) (h.dropInbox id) := by
  have before {id' : Nat} {box : List Message} (found : (h.dropInbox id).inbox? id' = some box) :
      h.inbox? id' = some box := by
    rw [inbox?_dropInbox] at found
    split at found
    · cases found
    · exact found
  constructor
  case given => simpa [Use.opened?] using attended.given
  case fresh =>
    intro id' later
    obtain ⟨notListening, noInbox, notTaken⟩ := attended.fresh id' later
    refine ⟨notListening, ?_, ?_⟩
    · simp [inbox?_dropInbox, noInbox]
    · simpa [Use.taken?] using notTaken
  case present =>
    intro id' mem kept
    obtain ⟨notBefore, notNow⟩ := not_or.mp fun gone => kept (List.mem_append.mpr gone)
    have other : id' ≠ id := by simpa using notNow
    simpa [inbox?_dropInbox, other] using
      attended.present id' (by simpa [Use.opened?] using mem) notBefore
  case listener =>
    simpa [Use.listens] using fun id' box found => attended.listener id' box (before found)
  case kept =>
    simpa [Use.taken?, Use.posted?] using fun id' box found => attended.kept id' box (before found)

theorem step (attended : Attended u h) (step : Step h use h') : Attended (u ++ [use]) h' := by
  cases step with
  | listen => exact attended.listen
  | unlisten id => exact attended.unlisten id
  | post m => exact attended.post m
  | take next => exact attended.take next
  | drop id => exact attended.drop id

end Attended

/-- An id that listens and has its inbox listens until it is closed. -/
theorem mem_listeners_of_step {h h' : MessageHub} {use : Use} {id : Nat} {box : List Message}
    (listening : id ∈ h.listeners) (found : h.inbox? id = some box) (step : Step h use h')
    (notClosed : use ≠ .closed id) : id ∈ h'.listeners := by
  cases step with
  | listen => exact List.mem_append_left _ listening
  | unlisten id' => simpa [listening, eq_comm] using notClosed
  | post m => simp [MessageHub.post, listening, found]
  | take => exact listening
  | drop => exact listening

/-! ### Inboxes that were emptied -/

/-- An id that stopped listening, and gave up its inbox when it had taken all there was. -/
structure Emptied (u : List Use) (h : MessageHub) (id : Nat) : Prop where
  le_last : id ≤ h.last
  noInbox : h.inbox? id = none
  notListening : id ∉ h.listeners
  closed : listens id false u = false
  took : taken id u = heard id false u

namespace Emptied

variable {u : List Use} {h h' : MessageHub} {use : Use} {id : Nat}

theorem drop (attended : Attended u h) (found : h.inbox? id = some []) (closed : id ∉ h.listeners) :
    Emptied (u ++ [.dropped id]) (h.dropInbox id) id where
  le_last := by
    refine Nat.not_lt.mp fun later => ?_
    have noInbox := (attended.fresh id later).2.1
    simp [found] at noInbox
  noInbox := by simp [inbox?_dropInbox]
  notListening := closed
  closed := by simpa [Use.listens, closed] using attended.listener id [] found
  took := by simpa [Use.taken?, Use.posted?] using attended.kept id [] found

theorem step (emptied : Emptied u h id) (step : Step h use h') : Emptied (u ++ [use]) h' id := by
  obtain ⟨le_last, noInbox, notListening, closed, took⟩ := emptied
  cases step with
  | listen =>
    have other : id ≠ h.last + 1 := Nat.ne_of_lt (Nat.lt_succ_of_le le_last)
    constructor
    case le_last => exact Nat.le_succ_of_le le_last
    case noInbox => simp [inbox?_listen, noInbox, other]
    case notListening => simpa [MessageHub.listen, other] using notListening
    case closed => simpa [MessageHub.listen, Use.listens, closed] using Ne.symm other
    case took => simpa [Use.taken?, Use.posted?] using took
  | unlisten id' =>
    constructor
    case le_last => exact le_last
    case noInbox => exact noInbox
    case notListening => simp [notListening]
    case closed => simp [Use.listens, closed]
    case took => simpa [Use.taken?, Use.posted?] using took
  | post m =>
    constructor
    case le_last => exact le_last
    case noInbox => simp [inbox?_post, noInbox]
    case notListening => exact fun mem => notListening (List.mem_of_mem_filter mem)
    case closed => simp [Use.listens, closed]
    case took => simpa [Use.taken?, closed] using took
  | @take id' m rest next =>
    have other : id' ≠ id := by
      rintro rfl
      simp [noInbox] at next
    constructor
    case le_last => exact le_last
    case noInbox => simp [inbox?_setInbox, noInbox]
    case notListening => exact notListening
    case closed => simp [Use.listens, closed]
    case took => simpa [Use.taken?, Use.posted?, other] using took
  | drop id' =>
    constructor
    case le_last => exact le_last
    case noInbox => simp [inbox?_dropInbox, noInbox]
    case notListening => exact notListening
    case closed => simp [Use.listens, closed]
    case took => simpa [Use.taken?, Use.posted?] using took

end Emptied

end AppBuilder.MessageHub
