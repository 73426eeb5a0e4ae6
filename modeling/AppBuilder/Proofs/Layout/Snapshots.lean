import AppBuilder.Proofs.Layout.Writes
import AppBuilder.Trace
import Mathlib.Data.Fintype.EquivFin

/-!
Snapshots that share their widgets with the tree.

In memory a tree refers to the cells that hold its widgets, and a snapshot is a copy of the
references (`SharedTrees`). A widget is changed in its cell when nothing else refers to the cell,
and copied to another cell before when something does (`SharedTrees.Edits`). What such a memory
holds are the trees that the same steps make of values (`Versions`, `Mirrors`), with one cell for
each identity: a snapshot reads as the tree that it was taken of, however long ago, and comparing
cells tells what comparing identities does.

Main statement: `SharedTrees.changedSince_of_reached`.
-/

namespace AppBuilder

open WidgetTree

/-! ### Trees as values -/

/-- A step with a tree and its snapshots. -/
inductive VersionStep where
  /-- Do something to the tree. -/
  | step (x : TreeStep)
  /-- Take a snapshot. -/
  | take
  /-- Let a snapshot go. -/
  | drop (index : Nat)

/-- A tree and its snapshots, the latest first. -/
structure Versions where
  tree : WidgetTree
  snapshots : List WidgetTree

namespace Versions

/-- What is done to the tree leaves its snapshots alone. -/
def after (v : Versions) : VersionStep → Versions
  | .step x => { v with tree := x.apply v.tree }
  | .take => { v with snapshots := v.tree :: v.snapshots }
  | .drop index => { v with snapshots := v.snapshots.eraseIdx index }

/-- What steps lead to, from the empty tree on. -/
def run (steps : List VersionStep) : Versions := steps.foldl after ⟨.empty, []⟩

theorem run_snoc (steps : List VersionStep) (x : VersionStep) :
    run (steps ++ [x]) = (run steps).after x := by
  rw [run, List.foldl_append]
  rfl

/-- The tree and its snapshots. -/
def trees (v : Versions) : List WidgetTree := v.tree :: v.snapshots

/-- An entry of one of the trees. -/
def Live (v : Versions) (e : WidgetEntry) : Prop :=
  ∃ t ∈ v.trees, ∃ id, t.entries.get? id = some e

/-- The tree is a later state of its snapshots. -/
theorem later_of_mem (steps : List VersionStep) :
    (run steps).tree.Issued ∧
      ∀ t ∈ (run steps).snapshots, t.Issued ∧ t.Later (run steps).tree := by
  induction steps using List.reverseRecOn with
  | nil => exact ⟨issued_empty, fun _ ht => by cases ht⟩
  | append_singleton steps x ih =>
    obtain ⟨issued, later⟩ := ih
    rw [run_snoc]
    cases x with
    | step x =>
      have edits := x.editsTo_apply (run steps).tree
      exact ⟨((Later.refl issued).editsTo edits).issued,
        fun t ht => (later t ht).imp_right (·.editsTo edits)⟩
    | take => exact ⟨issued, List.forall_mem_cons.mpr ⟨⟨issued, .refl issued⟩, later⟩⟩
    | drop index => exact ⟨issued, fun t ht => later t (List.mem_of_mem_eraseIdx ht)⟩

/-- Steps lead to a tree of any widgets by name. -/
theorem exists_run_of_dict (d : Dict Widget) :
    ∃ steps, (run steps).tree.widgets = d := by
  obtain ⟨es, made⟩ := exists_edits_of_dict d
  have each : ∀ (es : List TreeEdit) (v : Versions),
      ((es.map fun e => VersionStep.step (.edit e)).foldl after v).tree = es.foldl edit v.tree := by
    intro es
    induction es with
    | nil => exact fun _ => rfl
    | cons e es ih => exact fun v => ih (v.after (.step (.edit e)))
  exact ⟨es.map fun e => .step (.edit e), (congrArg widgets (each es ⟨.empty, []⟩)).trans made⟩

end Versions

/-! ### Trees in memory -/

/-- Cells that hold widgets, and a tree and its snapshots that refer to them. -/
structure SharedTrees where
  cells : Nat → Widget
  tree : Dict Nat
  snapshots : List (Dict Nat)

namespace SharedTrees

/-- The tree and its snapshots. -/
def trees (m : SharedTrees) : List (Dict Nat) := m.tree :: m.snapshots

/-- The references of a tree to a cell. -/
def refs (a : Nat) (d : Dict Nat) : List (WidgetId × Nat) := (d.filter fun _ b => b = a).entries

/-- How often trees refer to a cell. -/
def count (m : SharedTrees) (a : Nat) : Nat := (m.trees.flatMap (refs a)).length

/-- A tree as it reads, with the cells for identities. -/
def read (m : SharedTrees) (d : Dict Nat) : WidgetTree := ⟨d.map fun _ a => ⟨a, m.cells a⟩, 0⟩

/-- Put a widget into a cell and have the tree refer to it. -/
def put (m : SharedTrees) (id : WidgetId) (a : Nat) (w : Widget) : SharedTrees :=
  { m with cells := Function.update m.cells a w, tree := m.tree.insert id a }

/-- An edit of the tree. Widgets are stored in a cell that no tree refers to. A widget is changed
where it is if there is no other reference to it, and in a copy in such a cell otherwise. -/
inductive Edits (m : SharedTrees) : TreeEdit → SharedTrees → Prop where
  | insert {w : Widget} {a : Nat} : m.count a = 0 → Edits m (.insert w) (m.put w.id a w)
  | remove {id : WidgetId} : Edits m (.remove id) { m with tree := m.tree.erase id }
  | missing {id : WidgetId} {f : Widget → Widget} : m.tree.get? id = none →
    Edits m (.modify id f) m
  | inPlace {id : WidgetId} {f : Widget → Widget} {a : Nat} : m.tree.get? id = some a →
    m.count a = 1 → Edits m (.modify id f)
      { m with cells := Function.update m.cells a (f (m.cells a)) }
  | copy {id : WidgetId} {f : Widget → Widget} {a b : Nat} : m.tree.get? id = some a →
    m.count a ≠ 1 → m.count b = 0 → Edits m (.modify id f) (m.put id b (f (m.cells a)))

/-- A memory that steps may lead to. What is done to the tree is done by edits of it, the same as
make up what is done to its value. -/
inductive Reached : List VersionStep → SharedTrees → Prop where
  | start (cells : Nat → Widget) : Reached [] ⟨cells, .empty, []⟩
  | step {steps : List VersionStep} {m m' : SharedTrees} {x : TreeStep} {es : List TreeEdit} :
    Reached steps m → x.apply (Versions.run steps).tree = es.foldl edit (Versions.run steps).tree →
    Trace Edits m es m' → Reached (steps ++ [.step x]) m'
  | take {steps : List VersionStep} {m : SharedTrees} : Reached steps m →
    Reached (steps ++ [.take]) { m with snapshots := m.tree :: m.snapshots }
  | drop {steps : List VersionStep} {m : SharedTrees} {index : Nat} : Reached steps m →
    Reached (steps ++ [.drop index]) { m with snapshots := m.snapshots.eraseIdx index }

/-! ### References -/

section References

variable {m : SharedTrees} {a : Nat}

theorem mem_refs_iff {d : Dict Nat} {id : WidgetId} : (id, a) ∈ refs a d ↔ d.get? id = some a := by
  rw [refs, Dict.mem_entries_iff, Dict.get?_filter, Option.filter_eq_some_iff]
  simp

theorem get?_ne_of_refs_eq_nil {ds : List (Dict Nat)} (unreferenced : ds.flatMap (refs a) = [])
    {d : Dict Nat} (hd : d ∈ ds) (id : WidgetId) : d.get? id ≠ some a := fun ref =>
  List.not_mem_nil (List.flatMap_eq_nil_iff.mp unreferenced d hd ▸ mem_refs_iff.mpr ref)

/-- Nothing refers to a free cell. -/
theorem unreferred_of_free (free : m.count a = 0) :
    (∀ d ∈ m.snapshots, ∀ id, d.get? id ≠ some a) ∧ ∀ id, m.tree.get? id ≠ some a := by
  have unreferenced : m.trees.flatMap (refs a) = [] := List.eq_nil_of_length_eq_zero free
  exact ⟨fun d hd => get?_ne_of_refs_eq_nil unreferenced (List.mem_cons_of_mem _ hd),
    get?_ne_of_refs_eq_nil unreferenced List.mem_cons_self⟩

/-- Nothing else refers to a cell that the tree has the only reference to. -/
theorem sole_of_count_eq_one (once : m.count a = 1) {id : WidgetId}
    (ref : m.tree.get? id = some a) :
    (∀ d ∈ m.snapshots, ∀ x, d.get? x ≠ some a) ∧ ∀ x, m.tree.get? x = some a → x = id := by
  obtain ⟨e, only⟩ := List.length_eq_one_iff.mp once
  have parts : refs a m.tree ++ m.snapshots.flatMap (refs a) = [e] := only
  rcases List.append_eq_singleton_iff.mp parts with ⟨unreferenced, -⟩ | ⟨tree, snapshots⟩
  · exact absurd (mem_refs_iff.mpr ref) (unreferenced ▸ List.not_mem_nil)
  · refine ⟨fun d => get?_ne_of_refs_eq_nil snapshots, fun x ref' => ?_⟩
    have first := List.mem_singleton.mp (tree ▸ mem_refs_iff.mpr ref)
    have second := List.mem_singleton.mp (tree ▸ mem_refs_iff.mpr ref')
    exact congrArg Prod.fst (second.trans first.symm)

/-- There is always a free cell. -/
theorem exists_free (m : SharedTrees) : ∃ a, m.count a = 0 := by
  obtain ⟨a, fresh⟩ := Infinite.exists_notMem_finset (m.trees.flatMap Dict.values).toFinset
  refine ⟨a, List.length_eq_zero_iff.mpr (List.flatMap_eq_nil_iff.mpr fun d hd => ?_)⟩
  refine List.filter_eq_nil_iff.mpr fun e he same => fresh ?_
  rw [List.mem_toFinset, List.mem_flatMap]
  exact ⟨d, hd, List.mem_map.mpr ⟨e, he, of_decide_eq_true same⟩⟩

end References

/-! ### Progress -/

/-- Every edit can be made. -/
theorem exists_edits (m : SharedTrees) (e : TreeEdit) : ∃ m', Edits m e m' := by
  obtain ⟨b, free⟩ := m.exists_free
  cases e with
  | insert w => exact ⟨_, .insert free⟩
  | remove id => exact ⟨_, .remove⟩
  | modify id f =>
    cases ref : m.tree.get? id with
    | none => exact ⟨_, .missing ref⟩
    | some a =>
      by_cases once : m.count a = 1
      · exact ⟨_, .inPlace ref once⟩
      · exact ⟨_, .copy ref once free⟩

theorem exists_trace (m : SharedTrees) (es : List TreeEdit) : ∃ m', Trace Edits m es m' := by
  induction es generalizing m with
  | nil => exact ⟨m, .nil⟩
  | cons e es ih =>
    obtain ⟨m', first⟩ := m.exists_edits e
    obtain ⟨m'', rest⟩ := ih m'
    exact ⟨m'', rest.cons first⟩

/-- All steps lead somewhere. -/
theorem exists_reached (steps : List VersionStep) : ∃ m, Reached steps m := by
  induction steps using List.reverseRecOn with
  | nil => exact ⟨_, .start fun _ => .ofType "" ""⟩
  | append_singleton steps x ih =>
    obtain ⟨m, reached⟩ := ih
    cases x with
    | step x =>
      obtain ⟨es, made⟩ := x.editsTo_apply (Versions.run steps).tree
      obtain ⟨m', trace⟩ := m.exists_trace es
      exact ⟨m', reached.step made trace⟩
    | take => exact ⟨_, reached.take⟩
    | drop index => exact ⟨_, reached.drop⟩

/-! ### Memory and values -/

/-- The cells of the widgets of a tree, when there is one for each identity. -/
def cellsOf (place : Nat → Nat) (t : WidgetTree) : Dict Nat :=
  t.entries.map fun _ e => place e.identity

/-- Trees in memory are trees of values, with one cell for each identity. -/
structure Mirrors (place : Nat → Nat) (m : SharedTrees) (v : Versions) : Prop where
  trees : m.trees = v.trees.map (cellsOf place)
  cells : ∀ e, v.Live e → m.cells (place e.identity) = e.widget
  issued : ∀ e, v.Live e → e.identity < v.tree.nextIdentity
  apart : ∀ e e', v.Live e → v.Live e' → place e.identity = place e'.identity →
    e.identity = e'.identity

theorem get?_cellsOf (place : Nat → Nat) (t : WidgetTree) (id : WidgetId) :
    (cellsOf place t).get? id = (t.entries.get? id).map fun e => place e.identity :=
  Dict.get?_map _ _ _

theorem cellsOf_congr {place place' : Nat → Nat} {t : WidgetTree}
    (same : ∀ id e, t.entries.get? id = some e → place' e.identity = place e.identity) :
    cellsOf place' t = cellsOf place t := by
  refine Dict.ext_get? fun id => ?_
  rw [get?_cellsOf, get?_cellsOf]
  exact Option.map_congr fun e he => same id e he

namespace Mirrors

variable {place : Nat → Nat} {m m' : SharedTrees} {v v' : Versions}

/-- Trees may be let go and copied. -/
theorem restrict (h : Mirrors place m v) (trees : m'.trees = v'.trees.map (cellsOf place))
    (cells : m'.cells = m.cells) (next : v'.tree.nextIdentity = v.tree.nextIdentity)
    (live : ∀ e, v'.Live e → v.Live e) : Mirrors place m' v' where
  trees := trees
  cells e he := cells ▸ h.cells e (live e he)
  issued e he := next ▸ h.issued e (live e he)
  apart e e' he he' := h.apart e e' (live e he) (live e' he')

theorem tree (h : Mirrors place m v) : m.tree = cellsOf place v.tree :=
  (List.cons.inj h.trees).1

theorem snapshots (h : Mirrors place m v) : m.snapshots = v.snapshots.map (cellsOf place) :=
  (List.cons.inj h.trees).2

section Write

variable (h : Mirrors place m v) {key : WidgetId} {a : Nat} {w : Widget}
  (snapshots : ∀ d ∈ m.snapshots, ∀ id, d.get? id ≠ some a)
  (tree : ∀ id, m.tree.get? id = some a → id = key)
include h snapshots tree

/-- Whatever is still there when a widget was written to a cell is in another cell. -/
theorem live_write {e : WidgetEntry}
    (live : Versions.Live { v with tree := v.tree.write key w } e) :
    e = ⟨v.tree.nextIdentity, w⟩ ∨ v.Live e ∧ place e.identity ≠ a := by
  obtain ⟨t, ht, id, he⟩ := live
  rcases List.mem_cons.mp ht with rfl | ht
  · obtain ⟨-, rfl⟩ | ⟨other, he⟩ := Dict.get?_insert_eq_some_iff.mp he
    · exact .inl rfl
    · refine .inr ⟨⟨v.tree, List.mem_cons_self, id, he⟩, fun there => other (tree id ?_).symm⟩
      rw [h.tree, get?_cellsOf, he, Option.map_some, there]
  · refine .inr ⟨⟨t, List.mem_cons_of_mem _ ht, id, he⟩, fun there => ?_⟩
    refine snapshots (cellsOf place t) (h.snapshots ▸ List.mem_map_of_mem ht) id ?_
    rw [get?_cellsOf, he, Option.map_some, there]

/-- A widget is written to a cell that holds no other one. -/
theorem write : ∃ place', Mirrors place' (m.put key a w) { v with tree := v.tree.write key w } := by
  let place' := Function.update place v.tree.nextIdentity a
  have new : place' v.tree.nextIdentity = a := Function.update_self _ _ _
  have old : ∀ {e}, v.Live e → place' e.identity = place e.identity := fun he =>
    Function.update_of_ne (Nat.ne_of_lt (h.issued _ he)) _ _
  refine ⟨place', ?_, fun e he => ?_, fun e he => ?_, fun e e' he he' same => ?_⟩
  · have written : m.tree.insert key a = cellsOf place' (v.tree.write key w) := by
      refine Dict.ext_get? fun id => ?_
      rw [get?_cellsOf, WidgetTree.write, Dict.get?_insert, Dict.get?_insert, h.tree, get?_cellsOf]
      split
      · rw [Option.map_some, new]
      · exact Option.map_congr fun e he => (old ⟨v.tree, List.mem_cons_self, id, he⟩).symm
    have kept : m.snapshots = v.snapshots.map (cellsOf place') := by
      rw [h.snapshots]
      refine List.map_congr_left fun t ht => (cellsOf_congr fun id e he => ?_).symm
      exact old ⟨t, List.mem_cons_of_mem _ ht, id, he⟩
    exact List.cons_eq_cons.mpr ⟨written, kept⟩
  · rcases h.live_write snapshots tree he with rfl | ⟨live, apart⟩
    · rw [new]
      exact Function.update_self _ _ _
    · rw [old live]
      exact (Function.update_of_ne apart _ _).trans (h.cells e live)
  · rcases h.live_write snapshots tree he with rfl | ⟨live, -⟩
    · exact Nat.lt_succ_self _
    · exact Nat.lt_succ_of_lt (h.issued e live)
  · rcases h.live_write snapshots tree he with rfl | ⟨live, apart⟩ <;>
      rcases h.live_write snapshots tree he' with rfl | ⟨live', apart'⟩
    · rfl
    · rw [new, old live'] at same
      exact absurd same.symm apart'
    · rw [new, old live] at same
      exact absurd same apart
    · rw [old live, old live'] at same
      exact h.apart e e' live live' same

end Write

/-- An edit in memory is the same edit of the values. -/
theorem edit (h : Mirrors place m v) {e : TreeEdit} (step : Edits m e m') :
    ∃ place', Mirrors place' m' { v with tree := v.tree.edit e } := by
  have widget : ∀ {id a}, m.tree.get? id = some a → v.tree.get? id = some (m.cells a) := by
    intro id a ref
    rw [h.tree, get?_cellsOf, Option.map_eq_some_iff] at ref
    obtain ⟨e, he, rfl⟩ := ref
    rw [h.cells e ⟨v.tree, List.mem_cons_self, id, he⟩, get?, he, Option.map_some]
  cases step with
  | insert free =>
    obtain ⟨snapshots, tree⟩ := unreferred_of_free free
    exact h.write snapshots fun id ref => absurd ref (tree id)
  | @remove id =>
    refine ⟨place, h.restrict ?_ rfl rfl ?_⟩
    · refine List.cons_eq_cons.mpr ⟨Dict.ext_get? fun x => ?_, h.snapshots⟩
      rw [get?_cellsOf, WidgetTree.edit, WidgetTree.remove, Dict.get?_erase, Dict.get?_erase,
        h.tree, get?_cellsOf]
      split <;> rfl
    · rintro e ⟨t, ht, x, he⟩
      rcases List.mem_cons.mp ht with rfl | ht
      · exact ⟨v.tree, List.mem_cons_self, x, (Dict.get?_erase_eq_some_iff.mp he).2⟩
      · exact ⟨t, List.mem_cons_of_mem _ ht, x, he⟩
  | @missing id f gone =>
    have absent : v.tree.get? id = none := by
      rw [h.tree, get?_cellsOf, Option.map_eq_none_iff] at gone
      rw [get?, gone, Option.map_none]
    rw [WidgetTree.edit, modify_of_missing absent]
    exact ⟨place, h⟩
  | @inPlace id f a ref once =>
    obtain ⟨snapshots, tree⟩ := sole_of_count_eq_one once ref
    have stays : m.tree.insert id a = m.tree := by
      refine Dict.ext_get? fun x => ?_
      rw [Dict.get?_insert]
      split
      · subst x
        exact ref.symm
      · rfl
    have written : ∃ place', Mirrors place' (m.put id a (f (m.cells a)))
        { v with tree := v.tree.write id (f (m.cells a)) } := h.write snapshots tree
    rw [WidgetTree.edit, modify_of_get? (widget ref)]
    rwa [put, stays] at written
  | @copy id f a b ref _ free =>
    obtain ⟨snapshots, tree⟩ := unreferred_of_free free
    rw [WidgetTree.edit, modify_of_get? (widget ref)]
    exact h.write snapshots fun x ref' => absurd ref' (tree x)

theorem edits (h : Mirrors place m v) {es : List TreeEdit} (trace : Trace Edits m es m') :
    ∃ place', Mirrors place' m' { v with tree := es.foldl WidgetTree.edit v.tree } := by
  induction trace with
  | nil => exact ⟨place, h⟩
  | snoc _ last ih =>
    obtain ⟨place', h'⟩ := ih
    rw [List.foldl_append]
    exact h'.edit last

/-! #### Reading -/

section Reading

variable (h : Mirrors place m v) {t earlier : WidgetTree} (ht : t ∈ v.trees)
include h ht

/-- Trees in memory read as the trees that they are. -/
theorem widgets_read : (m.read (cellsOf place t)).widgets = t.widgets := by
  refine Dict.ext_get? fun id => ?_
  rw [get?_widgets, get?_widgets, get?, get?, read, Dict.get?_map, get?_cellsOf, Option.map_map,
    Option.map_map]
  exact Option.map_congr fun e he => h.cells e ⟨t, ht, id, he⟩

/-- Comparing cells tells what comparing identities does. -/
theorem changedSince_read (earlier_mem : earlier ∈ v.trees) :
    (m.read (cellsOf place t)).changedSince (m.read (cellsOf place earlier)) =
      t.changedSince earlier := by
  have cell : ∀ (s : WidgetTree) id,
      ((m.read (cellsOf place s)).entries.get? id).map (·.identity) =
        ((s.entries.get? id).map (·.identity)).map place := by
    intro s id
    rw [read, Dict.get?_map, get?_cellsOf, Option.map_map, Option.map_map, Option.map_map]
    rfl
  refine NameSet.ext_mem fun id => ?_
  rw [mem_changedSince_iff, mem_changedSince_iff, cell, cell, not_iff_not]
  refine ⟨fun same => ?_, fun same => by rw [same]⟩
  cases he : t.entries.get? id <;> cases he' : earlier.entries.get? id <;>
    simp only [he, he', Option.map_none, Option.map_some, reduceCtorEq, Option.some.injEq] at same ⊢
  exact h.apart _ _ ⟨t, ht, id, he⟩ ⟨earlier, earlier_mem, id, he'⟩ same

end Reading

end Mirrors

/-- Whatever was done, memory holds the trees of values. -/
theorem exists_mirrors {steps : List VersionStep} {m : SharedTrees} (reached : Reached steps m) :
    ∃ place, Mirrors place m (Versions.run steps) := by
  induction reached with
  | start cells =>
    have dead : ∀ e, ¬ Versions.Live ⟨.empty, []⟩ e := by
      rintro e ⟨t, ht, id, he⟩
      cases List.mem_singleton.mp ht
      cases he
    exact ⟨id, rfl, fun e he => absurd he (dead e), fun e he => absurd he (dead e),
      fun e _ he => absurd he (dead e)⟩
  | step _ made trace ih =>
    obtain ⟨place, h⟩ := ih
    rw [Versions.run_snoc, Versions.after, made]
    exact h.edits trace
  | @take steps m _ ih =>
    obtain ⟨place, h⟩ := ih
    rw [Versions.run_snoc]
    refine ⟨place, h.restrict (List.cons_eq_cons.mpr ⟨h.tree, h.trees⟩) rfl rfl ?_⟩
    rintro e ⟨t, ht, he⟩
    rcases List.mem_cons.mp ht with rfl | ht
    · exact ⟨_, List.mem_cons_self, he⟩
    · exact ⟨t, ht, he⟩
  | @drop steps m index _ ih =>
    obtain ⟨place, h⟩ := ih
    rw [Versions.run_snoc]
    refine ⟨place, h.restrict (List.cons_eq_cons.mpr ⟨h.tree, ?_⟩) rfl rfl ?_⟩
    · rw [h.snapshots]
      exact List.eraseIdx_map _ _ _
    · rintro e ⟨t, ht, he⟩
      rcases List.mem_cons.mp ht with rfl | ht
      · exact ⟨_, List.mem_cons_self, he⟩
      · exact ⟨t, List.mem_cons_of_mem _ (List.mem_of_mem_eraseIdx ht), he⟩

/-- There are steps that lead to a tree of any widgets, and memories that steps lead to. There all
snapshots read as the trees that they were taken of, and comparing cells with a snapshot yields the
changes since then. These include every widget that came, went or differs. When the tree is
consistent, sharing the columns of a container, placing its children or arranging it for a narrow
screen next changes exactly the widgets whose places it changes. -/
theorem changedSince_of_reached :
    (∀ d : Dict Widget, ∃ steps, (Versions.run steps).tree.widgets = d) ∧
    (∀ steps, ∃ m, Reached steps m) ∧
    ∀ steps m, Reached steps m →
      let v := Versions.run steps
      (m.read m.tree).widgets = v.tree.widgets ∧
      m.snapshots.map (fun d => (m.read d).widgets) = v.snapshots.map widgets ∧
      m.snapshots.map (fun d => (m.read m.tree).changedSince (m.read d)) =
        v.snapshots.map v.tree.changedSince ∧
      (∀ t ∈ v.snapshots, ∀ id, v.tree.get? id ≠ t.get? id → id ∈ v.tree.changedSince t) ∧
      (v.tree.Consistent → ∀ c parent,
        ∀ e ∈ [LayoutEdit.share parent, .place parent, .mobile parent], ∀ id,
          id ∈ (e.apply c v.tree).changedSince v.tree ↔
            (e.apply c v.tree).placeOf? id ≠ v.tree.placeOf? id) := by
  refine ⟨Versions.exists_run_of_dict, exists_reached, fun steps m reached => ?_⟩
  obtain ⟨place, h⟩ := exists_mirrors reached
  obtain ⟨issued, later⟩ := Versions.later_of_mem steps
  have snapshot : ∀ t ∈ (Versions.run steps).snapshots, t ∈ (Versions.run steps).trees :=
    fun t ht => List.mem_cons_of_mem _ ht
  have current : (Versions.run steps).tree ∈ (Versions.run steps).trees := List.mem_cons_self
  refine ⟨?_, ?_, ?_, fun t ht id => (later t ht).2.mem_changedSince (later t ht).1, ?_⟩
  · rw [h.tree]
    exact h.widgets_read current
  · rw [h.snapshots, List.map_map]
    exact List.map_congr_left fun t ht => h.widgets_read (snapshot t ht)
  · rw [h.snapshots, h.tree, List.map_map]
    exact List.map_congr_left fun t ht => h.changedSince_read current (snapshot t ht)
  · intro consistent c parent e he id
    have tidy := consistent.linked.tidy consistent.nodup
    have frugal : (Versions.run steps).tree.Frugal (e.apply c (Versions.run steps).tree) := by
      simp only [List.mem_cons, List.not_mem_nil, or_false] at he
      rcases he with rfl | rfl | rfl
      · exact tidy.frugal_shareAll c parent
      · exact tidy.frugal_placeChildren c parent
      · exact frugal_arrangeMobile c _ parent
    exact frugal.mem_changedSince_iff issued (TreeStep.editsTo_operation c _ e)

/-- Storing the widgets of a row. -/
def storeBesideFill : List VersionStep :=
  besideFill.entries.values.map fun e => .step (.edit (.insert e.widget))

/-- Only the filling widget is written when the row is arranged for a narrow screen, and the
snapshot taken before still reads as the row that it was. -/
theorem changedSince_of_reached_besideFill :
    (Versions.run storeBesideFill).tree.Consistent ∧
    (∃ m, Reached (storeBesideFill ++ [.take, .step (.operation {} (.mobile mainContainerId))]) m ∧
      m.snapshots.map (fun d => (m.read d).widgets) = [besideFill.widgets] ∧
      m.snapshots.map (fun d => (m.read m.tree).changedSince (m.read d)) = [.ofList ["b"]]) ∧
    ∀ id, id ∈ ((Versions.run storeBesideFill).tree.placeChildren {} mainContainerId).1.changedSince
        (Versions.run storeBesideFill).tree ↔
      ((Versions.run storeBesideFill).tree.placeChildren {} mainContainerId).1.placeOf? id ≠
        (Versions.run storeBesideFill).tree.placeOf? id := by
  have consistent : (Versions.run storeBesideFill).tree.Consistent :=
    WellFormed.consistent (by decide +kernel)
  obtain ⟨-, ways, all⟩ := changedSince_of_reached
  obtain ⟨m, reached⟩ := ways
    (storeBesideFill ++ [.take, .step (.operation {} (.mobile mainContainerId))])
  obtain ⟨-, views, changes, -⟩ := all _ m reached
  obtain ⟨stored, start⟩ := ways storeBesideFill
  obtain ⟨-, -, -, -, exact_changes⟩ := all _ stored start
  refine ⟨consistent, ⟨m, reached, views.trans ?_, changes.trans ?_⟩, ?_⟩
  · decide +kernel
  · decide +kernel
  · exact exact_changes consistent {} mainContainerId (.place mainContainerId) (by simp)

end SharedTrees

end AppBuilder
