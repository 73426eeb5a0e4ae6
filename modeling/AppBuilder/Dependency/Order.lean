import AppBuilder.Components
import AppBuilder.Dependency.Graph

/-!
Everything that depends on a path, and the order in which paths are evaluated.

`closure` adds to a set of paths all that depend on them, however indirectly.
`components` splits the nodes into those that depend on each other mutually, every
component after those it depends on. A node that depends on itself, alone or through
others, is cyclic; `order` lists the other nodes so that each comes after what it
depends on.
-/

namespace AppBuilder.DependencyGraph

/-- The graph as a network from each key to its dependencies. -/
def toDependencies (g : DependencyGraph) : Network Key := ⟨g.index.values, g.dependencyKeys⟩

/-- The graph as a network from each key to its dependents. -/
def toDependents (g : DependencyGraph) : Network Key := ⟨g.index.values, g.dependentKeys⟩

/-- Those of the given paths that are nodes, and every path that depends on one of
them, directly or through others. -/
def closure (g : DependencyGraph) (paths : List String) : NameSet :=
  g.pathsOf (g.toDependents.preorder (g.keysOf paths))

/-! ### Components -/

/-- The nodes that depend on each other mutually, as one component each; a component
comes after every other that it depends on. -/
def components (g : DependencyGraph) : List (List Key) := g.toDependencies.components

/-- Whether the nodes of a component depend on themselves. -/
def isCycle (g : DependencyGraph) : List Key → Bool
  | [k] => k ∈ g.dependencyKeys k
  | ks => 1 < ks.length

/-! ### Order -/

/-- An order of evaluation: the nodes on no cycle, dependencies first, and the nodes on
a cycle. -/
structure Order where
  sorted : List String
  cyclic : NameSet
deriving DecidableEq

/-- The order of a graph without nodes. -/
def Order.empty : Order := ⟨[], .empty⟩

/-- Order the nodes. -/
def order (g : DependencyGraph) : Order :=
  let (cycles, singles) := g.components.partition g.isCycle
  ⟨singles.flatten.filterMap fun k => (g.nodes.get? k).map (·.path), g.pathsOf cycles.flatten⟩

end AppBuilder.DependencyGraph
