import AppBuilder.Search

/-!
Strongly connected components.

A `ComponentSearch` numbers the items of a network as it meets them and keeps those whose
component is not complete on a stack. The low number of an item is the least number of an item
on the stack that it is known to reach. An item that still has its own number as low number
when all its successors have been tried is the first of its component to be met: that component
is the item with all above it on the stack.
-/

namespace AppBuilder

/-- An item that is being searched, with the successors still to try. -/
structure Call (α : Type) where
  item : α
  pending : List α

/-- A bound on the steps until all items of some calls are left when no item is met. -/
def Call.totalWork {α : Type} : List (Call α) → Nat
  | [] => 0
  | f :: fs => 2 * f.pending.length + 1 + totalWork fs

/-- The state of a search for components. -/
structure ComponentSearch (α : Type) where
  /-- The numbers given to items, the one given last in front. -/
  numbers : List (α × Nat)
  lows : List (α × Nat)
  /-- The items met whose component is not complete. -/
  stack : List α
  /-- The number that the next item will get. -/
  next : Nat
  found : List (List α)
  /-- The items being searched, each a successor of the one behind it. -/
  calls : List (Call α)

namespace ComponentSearch

variable {α : Type} [DecidableEq α]

/-- A search that has met nothing. -/
def empty : ComponentSearch α := ⟨[], [], [], 0, [], []⟩

/-- The items met. -/
def met (s : ComponentSearch α) : List α := s.numbers.map (·.1)

/-- The number of an item. -/
def number (s : ComponentSearch α) (x : α) : Nat := (s.numbers.lookup x).getD 0

/-- The low number of an item. -/
def low (s : ComponentSearch α) (x : α) : Nat := (s.lows.lookup x).getD 0

/-- Meet an item and start searching it. -/
def meet (s : ComponentSearch α) (x : α) (successors : List α) : ComponentSearch α where
  numbers := (x, s.next) :: s.numbers
  lows := (x, s.next) :: s.lows
  stack := x :: s.stack
  next := s.next + 1
  found := s.found
  calls := ⟨x, successors⟩ :: s.calls

/-- Let an item know a number that it reaches. -/
def lower (s : ComponentSearch α) (x : α) (number : Nat) : ComponentSearch α :=
  { s with lows := (x, min (s.low x) number) :: s.lows }

/-- Take the stack down to an item off as a component. -/
def close (s : ComponentSearch α) (x : α) : ComponentSearch α :=
  let size := s.stack.idxOf x + 1
  { s with stack := s.stack.drop size, found := s.found ++ [s.stack.take size] }

/-- Leave an item, with the items that go on being searched. -/
def leave (s : ComponentSearch α) (x : α) (calls : List (Call α)) : ComponentSearch α :=
  let s := match calls with
    | [] => s
    | caller :: _ => s.lower caller.item (s.low x)
  let s := if s.low x = s.number x then s.close x else s
  { s with calls }

/-- Try the next successor of the item met last among those being searched, or leave that item
when there is none. -/
def step (n : Network α) (s : ComponentSearch α) : ComponentSearch α :=
  match s.calls with
  | [] => s
  | ⟨x, []⟩ :: calls => s.leave x calls
  | ⟨x, y :: pending⟩ :: calls =>
    let s := { s with calls := ⟨x, pending⟩ :: calls }
    if y ∉ s.met then s.meet y (n.successors y)
    else if y ∈ s.stack then s.lower x (s.number y)
    else s

@[simp] theorem met_leave (s : ComponentSearch α) (x : α) (calls : List (Call α)) :
    (s.leave x calls).met = s.met := by
  unfold leave
  cases calls <;> (dsimp only; split <;> rfl)

@[simp] theorem calls_leave (s : ComponentSearch α) (x : α) (calls : List (Call α)) :
    (s.leave x calls).calls = calls := rfl

theorem step_lex (n : Network α) {s : ComponentSearch α} (searching : ¬ s.calls.isEmpty = true) :
    Prod.Lex (· < ·) (· < ·) ((n.unseen (s.step n).met).length, Call.totalWork (s.step n).calls)
      ((n.unseen s.met).length, Call.totalWork s.calls) := by
  unfold step
  split
  · rename_i bare
    simp [bare] at searching
  · rename_i x calls here
    rw [met_leave]
    exact .right _ (by simp [Call.totalWork, here])
  · rename_i x y pending calls here
    dsimp only
    split
    · rename_i new
      refine n.unseen_cons_lex new fun bare => ?_
      simp only [Call.totalWork, here, meet, bare, List.length_cons, List.length_nil]
      omega
    · split <;> exact .right _ (by simp [Call.totalWork, here, lower])

/-- Search until no item is being searched. -/
def run (n : Network α) (s : ComponentSearch α) : ComponentSearch α :=
  if s.calls.isEmpty then s else run n (s.step n)
termination_by ((n.unseen s.met).length, Call.totalWork s.calls)
decreasing_by exact step_lex n (by assumption)

end ComponentSearch

variable {α : Type} [DecidableEq α]

/-- Search an item and all that it reaches, unless it has been met. -/
def Network.searchFrom (n : Network α) (s : ComponentSearch α) (x : α) : ComponentSearch α :=
  if x ∈ s.met then s else (s.meet x (n.successors x)).run n

/-- The items that the listed items reach, in lists of those that reach each other, each list
behind all others that its items reach. -/
def Network.components (n : Network α) : List (List α) :=
  (n.items.foldl n.searchFrom .empty).found

end AppBuilder
