import AppBuilder.Arena
import AppBuilder.Dict

/-!
A graph of property paths, each of which may depend on others.

Every node has a key, and an edge is kept at both its ends: in the dependencies of the
node that reads and in the dependents of the node that is read. Both lists are in key
order, which decides in which order dependencies are searched. Adding, removing and
rewiring keep the two sides in step.
-/

namespace AppBuilder

/-- A path with its edges, both lists in key order. -/
structure DependencyNode where
  path : String
  dependencies : List Key
  dependents : List Key

/-- Paths and the paths that they depend on. -/
structure DependencyGraph where
  nodes : Arena DependencyNode
  index : Dict Key

namespace DependencyGraph

/-! ### Sets of keys -/

/-- Insert a key into a list in key order. -/
def insertKey (k : Key) : List Key → List Key
  | [] => [k]
  | x :: xs => if k.before x then k :: x :: xs else if x = k then x :: xs else x :: insertKey k xs

/-- The keys of a list in key order, each once. -/
def sortKeys (ks : List Key) : List Key := ks.foldl (fun acc k => insertKey k acc) []

/-- Whether two lists hold the same keys. -/
def sameKeys (ks ls : List Key) : Bool := ks.all (· ∈ ls) && ls.all (· ∈ ks)

theorem mem_insertKey {k a : Key} {ks : List Key} : a ∈ insertKey k ks ↔ a = k ∨ a ∈ ks := by
  induction ks with
  | nil => simp [insertKey]
  | cons x xs ih =>
    unfold insertKey
    split
    · simp
    · split
      · rename_i hx
        subst hx
        simp
      · simp only [List.mem_cons, ih]
        exact or_left_comm

theorem mem_sortKeys {a : Key} {ks : List Key} : a ∈ sortKeys ks ↔ a ∈ ks := by
  have key : ∀ (ks acc : List Key),
      a ∈ ks.foldl (fun acc k => insertKey k acc) acc ↔ a ∈ acc ∨ a ∈ ks := by
    intro ks
    induction ks with
    | nil => simp
    | cons x xs ih =>
      intro acc
      rw [List.foldl_cons, ih, mem_insertKey, List.mem_cons, or_assoc]
      exact or_left_comm
  simpa [sortKeys] using key ks []

/-! ### Reading -/

/-- The graph with no node. -/
def empty : DependencyGraph := ⟨.empty, .empty⟩

instance : Inhabited DependencyGraph := ⟨empty⟩

/-- Number of nodes. -/
def size (g : DependencyGraph) : Nat := g.nodes.size

/-- Whether a path is a node. -/
def contains (g : DependencyGraph) (path : String) : Bool := g.index.contains path

/-- The paths that are nodes, in increasing order. -/
def paths (g : DependencyGraph) : List String := g.index.keys

/-- The node of a path. -/
def node? (g : DependencyGraph) (path : String) : Option DependencyNode :=
  (g.index.get? path).bind g.nodes.get?

/-- The dependencies of a key. -/
def dependencyKeys (g : DependencyGraph) (k : Key) : List Key :=
  match g.nodes.get? k with
  | some n => n.dependencies
  | none => []

/-- The dependents of a key. -/
def dependentKeys (g : DependencyGraph) (k : Key) : List Key :=
  match g.nodes.get? k with
  | some n => n.dependents
  | none => []

/-- The paths of a list of keys. -/
def pathsOf (g : DependencyGraph) (ks : List Key) : NameSet :=
  .ofList (ks.filterMap fun k => (g.nodes.get? k).map (·.path))

/-- The keys of those paths of a list that are nodes. -/
def keysOf (g : DependencyGraph) (paths : List String) : List Key :=
  paths.filterMap g.index.get?

/-- The paths that a path depends on. -/
def dependencies (g : DependencyGraph) (path : String) : NameSet :=
  match g.index.get? path with
  | some k => g.pathsOf (g.dependencyKeys k)
  | none => .empty

/-- The paths that depend on a path. -/
def dependents (g : DependencyGraph) (path : String) : NameSet :=
  match g.index.get? path with
  | some k => g.pathsOf (g.dependentKeys k)
  | none => .empty

/-- For every path that others depend on, those others. -/
def inverse (g : DependencyGraph) : Dict NameSet :=
  (g.index.map fun path _ => g.dependents path).filter fun _ s => !s.isEmpty

/-! ### Changing -/

/-- Add a path without edges, unless it is a node already. -/
def add (g : DependencyGraph) (path : String) : DependencyGraph :=
  if g.contains path then g
  else ⟨g.nodes.insert ⟨path, [], []⟩, g.index.insert path g.nodes.nextKey⟩

/-- Forget a key among the dependents of others. -/
def dropDependent (k : Key) (nodes : Arena DependencyNode) (ks : List Key) :
    Arena DependencyNode :=
  ks.foldl (fun a d => a.modify d fun n =>
    { n with dependents := n.dependents.filter (· ≠ k) }) nodes

/-- Enter a key among the dependents of others. -/
def addDependent (k : Key) (nodes : Arena DependencyNode) (ks : List Key) :
    Arena DependencyNode :=
  ks.foldl (fun a d => a.modify d fun n =>
    { n with dependents := insertKey k n.dependents }) nodes

/-- Forget a key among the dependencies of others. -/
def dropDependency (k : Key) (nodes : Arena DependencyNode) (ks : List Key) :
    Arena DependencyNode :=
  ks.foldl (fun a d => a.modify d fun n =>
    { n with dependencies := n.dependencies.filter (· ≠ k) }) nodes

/-- Remove a path and every edge at it. -/
def remove (g : DependencyGraph) (path : String) : DependencyGraph :=
  match g.index.get? path with
  | none => g
  | some k =>
    let nodes := dropDependent k (g.nodes.remove k) (g.dependencyKeys k)
    ⟨dropDependency k nodes (g.dependentKeys k), g.index.erase path⟩

/-- Replace the dependencies of the node under a key. -/
def rewire (g : DependencyGraph) (k : Key) (targets : List Key) : DependencyGraph :=
  let old := g.dependencyKeys k
  let nodes := dropDependent k g.nodes (old.filter (· ∉ targets))
  let nodes := addDependent k nodes (targets.filter (· ∉ old))
  ⟨nodes.modify k fun n => { n with dependencies := targets }, g.index⟩

/-- Make a path, which is added if need be, depend on those of the given paths that are
nodes. The first part tells whether its dependencies changed. -/
def setDependencies (g : DependencyGraph) (path : String) (targets : List String) :
    Bool × DependencyGraph :=
  let g := g.add path
  match g.index.get? path with
  | none => (false, g)
  | some k =>
    let targets := sortKeys (g.keysOf targets)
    if sameKeys (g.dependencyKeys k) targets then (false, g) else (true, g.rewire k targets)

end DependencyGraph

end AppBuilder
