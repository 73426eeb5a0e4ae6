import AppBuilder.Dependency.Order
import AppBuilder.Entity.Difference
import AppBuilder.Evaluation.Value

/-!
Keeping the values of a data tree up to date.

A `TreeEvaluator` holds the last tree it was given, the evaluated tree, and a dependency
graph with one node per property that is no trigger. `createFirst` evaluates a whole
tree. `update` evaluates what a change of the tree can have an effect on: the properties
that are new or edited or whose dependencies changed, and all that depends on them. After
a pass that found a cycle the next one starts from scratch. A property on a cycle keeps
its last value.
-/

namespace AppBuilder

/-! ### State -/

/-- A data tree and its values. -/
structure TreeEvaluator where
  evaluator : Evaluator
  graph : DependencyGraph
  /-- What each property that holds code refers to. -/
  references : Dict (List String)
  order : DependencyGraph.Order
  unevaluated : DataTree
  evaluated : DataTree
  /-- Whether the next pass has to start from scratch. -/
  needsRebuild : Bool

/-- The outcome of a pass. -/
structure EvalPass where
  /-- The properties evaluated, in order. -/
  evaluationOrder : List String
  /-- What changed since the tree before. -/
  changes : List PropertyChange
  errors : List EvalError
  /-- Whether the pass started from scratch. -/
  fromScratch : Bool

/-- The outcome of a pass for an unchanged tree. -/
def EvalPass.empty : EvalPass := ⟨[], [], [], false⟩

def EvalPass.toJson (p : EvalPass) : Json :=
  .object [("errors", .array (p.errors.map (·.toJson))),
    ("evaluationOrder", .strings p.evaluationOrder),
    ("isCreateFirstTree", .bool p.fromScratch),
    ("unevalUpdates", .array (p.changes.map (·.toJson)))]

/-! ### Dependencies -/

/-- The nodes that a reference of a node points to. With a property it points to that
property; the bare name of an entity means all its properties but the node itself. -/
def resolveReference (tree : DataTree) (graph : DependencyGraph) (node reference : String) :
    List String :=
  let name := Reference.entity reference
  match tree.entity? name with
  | none => []
  | some e =>
    match Reference.property? reference with
    | some property => [propertyPath name property].filter graph.contains
    | none =>
      (e.properties.keys.map (propertyPath name)).filter fun p => p ≠ node && graph.contains p

/-- The nodes that a node depends on. -/
def resolveReferences (tree : DataTree) (graph : DependencyGraph)
    (references : Dict (List String)) (node : String) : List String :=
  ((references.get? node).getD []).flatMap (resolveReference tree graph node)

/-- Set the dependencies of nodes one after another; the first part lists those whose
dependencies changed. -/
def rewireNodes (tree : DataTree) (references : Dict (List String)) (graph : DependencyGraph)
    (nodes : List String) : List String × DependencyGraph :=
  nodes.foldl (fun (changed, g) node =>
    match g.setDependencies node (resolveReferences tree g references node) with
    | (true, g) => (changed ++ [node], g)
    | (false, g) => (changed, g)) ([], graph)

/-! ### Values -/

/-- The values of the entities that a node refers to. -/
def nodeScope (references : Dict (List String)) (evaluated : DataTree) (node : String) : Scope :=
  ((references.get? node).getD []).foldl (fun scope r =>
    match evaluated.entityValue? (Reference.entity r) with
    | some v => scope.insert (Reference.entity r) v
    | none => scope) .empty

namespace TreeEvaluator

/-- An evaluator without a tree. -/
def fresh (e : Evaluator) : TreeEvaluator :=
  ⟨e, .empty, .empty, .empty, .empty, .empty, true⟩

/-- Whether the graph has a cycle. -/
def hasCycle (t : TreeEvaluator) : Bool := !t.order.cyclic.isEmpty

/-- Drop what was kept of earlier code. -/
def clearCache (t : TreeEvaluator) : TreeEvaluator := { t with evaluator := t.evaluator.clearCache }

/-- Evaluate one property; a failure leaves null. -/
def evaluateNode (t : TreeEvaluator) (path : String) : TreeEvaluator × Option EvalError :=
  match t.unevaluated.get? path with
  | none => (t, none)
  | some raw =>
    match t.evaluator.resolve (nodeScope t.references t.evaluated path) raw with
    | .ok v => ({ t with evaluated := t.evaluated.set path v }, none)
    | .error e => ({ t with evaluated := t.evaluated.set path .null }, some (e.atPath path))

/-- Evaluate properties in order, collecting the errors. -/
def evaluateNodes (t : TreeEvaluator) (paths : List String) : TreeEvaluator × List EvalError :=
  paths.foldl (fun (t, errors) path =>
    let (t, error) := t.evaluateNode path
    (t, errors ++ error.toList)) (t, [])

/-- Evaluate those properties of the order that hold code and pass a test, and finish
the pass. -/
def finishPass (t : TreeEvaluator) (test : String → Bool) (changes : List PropertyChange)
    (errors : List EvalError) (fromScratch : Bool) : EvalPass × TreeEvaluator :=
  let order := t.order.sorted.filter fun p => test p && t.references.contains p
  let (t, more) := t.evaluateNodes order
  (⟨order, changes, errors ++ more, fromScratch⟩, { t with needsRebuild := t.hasCycle })

/-! ### The first pass -/

/-- The paths of a tree that are no triggers. -/
def nodePaths (tree : DataTree) : List String := tree.paths.filter fun p => !tree.isTrigger p

/-- What the property at a path refers to, `none` when it holds no code. -/
def referencesAt? (tree : DataTree) (path : String) : Option (List String) :=
  (tree.get? path).bind Reference.ofValue?

/-- Set or drop the references of a path. -/
def noteReferences (tree : DataTree) (references : Dict (List String)) (path : String) :
    Dict (List String) :=
  match referencesAt? tree path with
  | some r => references.insert path r
  | none => references.erase path

/-- Evaluate a tree from scratch. A property on a cycle keeps the value that its path had
before, or null. -/
def createFirst (t : TreeEvaluator) (tree : DataTree) : EvalPass × TreeEvaluator :=
  let paths := nodePaths tree
  let references := paths.foldl (noteReferences tree) .empty
  let (_, graph) := rewireNodes tree references (paths.foldl .add .empty) paths
  let order := graph.order
  let evaluated := order.cyclic.toList.foldl
    (fun evaluated path => evaluated.set path (.orNull (t.evaluated.get? path))) tree
  finishPass { t with graph, references, order, unevaluated := tree, evaluated }
    (fun _ => true) (tree.changes t.unevaluated) (order.cyclic.toList.map .cycle) true

/-! ### Later passes -/

/-- An evaluated tree with the entities of a new tree, their kinds and their triggers;
values are kept where the entity was there before. -/
def syncEntities (tree evaluated : DataTree) : DataTree :=
  ⟨tree.entities.map fun name e =>
    { e with properties := ((evaluated.entity? name).map (·.properties)).getD .empty }⟩

/-- Where an update stands between two changes. -/
structure Sync where
  graph : DependencyGraph
  references : Dict (List String)
  evaluated : DataTree
  /-- The properties whose value may have changed. -/
  seeds : NameSet
  /-- The nodes that are new or edited, in order. -/
  edited : List String
  /-- Whether a node came or went. -/
  structural : Bool

namespace Sync

/-- Remove the node of a path; all that depends on it is evaluated again. -/
def dropNode (s : Sync) (path : String) : Sync :=
  if s.graph.contains path then
    { s with
      seeds := s.seeds.insertMany (s.graph.dependents path).toList
      graph := s.graph.remove path
      references := s.references.erase path
      structural := true }
  else s

/-- Add the node of a path, unless it is there already, and note its references. -/
def editNode (tree : DataTree) (s : Sync) (path : String) : Sync :=
  { s with
    graph := s.graph.add path
    references := noteReferences tree s.references path
    seeds := s.seeds.insert path
    edited := s.edited ++ [path]
    structural := s.structural || !s.graph.contains path }

/-- Bring the value of a changed property up to date, unless it holds code. -/
def syncValue (tree : DataTree) (s : Sync) (c : PropertyChange) : Sync :=
  if c.event = .removed then { s with evaluated := s.evaluated.unset c.path }
  else if s.references.contains c.path then s
  else
    match tree.get? c.path with
    | some raw => { s with evaluated := s.evaluated.set c.path raw }
    | none => s

/-- Take one change over. -/
def apply (tree : DataTree) (s : Sync) (c : PropertyChange) : Sync :=
  let s := if c.event = .removed || tree.isTrigger c.path then s.dropNode c.path
    else editNode tree s c.path
  syncValue tree s c

end Sync

/-- Give every path of a list that has no value null. -/
def fillMissing (evaluated : DataTree) (paths : List String) : DataTree :=
  paths.foldl (fun t p => if (t.get? p).isSome then t else t.set p .null) evaluated

/-- Take over a list of changes and evaluate again what they have an effect on. -/
def applyChanges (t : TreeEvaluator) (tree : DataTree) (changes : List PropertyChange) :
    EvalPass × TreeEvaluator :=
  let s := changes.foldl (Sync.apply tree)
    ⟨t.graph, t.references, syncEntities tree t.evaluated, .empty, [], false⟩
  let targets := if s.structural then s.graph.paths else s.edited
  let (rewired, graph) := rewireNodes tree s.references s.graph targets
  let order := if s.structural || !rewired.isEmpty then graph.order else t.order
  let dirty := graph.closure (s.seeds.insertMany rewired).toList
  let cyclic := order.cyclic.toList.filter dirty.contains
  let evaluated := fillMissing s.evaluated cyclic
  finishPass { t with graph, references := s.references, order, unevaluated := tree, evaluated }
    dirty.contains changes (cyclic.map .cycle) false

/-- Bring the values up to date with a tree. -/
def update (t : TreeEvaluator) (tree : DataTree) : EvalPass × TreeEvaluator :=
  if t.needsRebuild then t.createFirst tree
  else
    match tree.changes t.unevaluated with
    | [] =>
      (.empty, { t with unevaluated := tree, evaluated := syncEntities tree t.evaluated })
    | changes => t.applyChanges tree changes

end TreeEvaluator

end AppBuilder
