import AppBuilder.Layout.Highlight
import AppBuilder.Proofs.Widget.WellFormed
import AppBuilder.Trace
import Mathlib.Order.Bounds.Basic

/-!
Working out the rectangles of a tree.

A `GridWalk` keeps a stack of widgets with the places of their parents. It takes the widget on top,
notes its rectangle and puts its children on the stack, until the stack is empty. When the ways down
are no longer than `WidgetTree.gridRects` follows them, which they are in a consistent tree
(`Consistent.shallow`), the walk ends with the rectangles of `gridRects` (`exists_walk`). On the way
no widget is visited twice, since its parent was visited once (`Sound.visit`). Extents are measured
in 32 bits, and are those of the place of a widget where they fit (`GridPosition.Fits.toInt_counts`).

Main statement: `Consistent.gridRects_spec`.
-/

namespace AppBuilder

namespace GridPosition

/-! ### Extents -/

/-- Both extents of a place fit in 32 bits. -/
structure Fits (p : GridPosition) : Prop where
  rows : Int32.minValue.toInt ≤ p.rows ∧ p.rows ≤ Int32.maxValue.toInt
  columns : Int32.minValue.toInt ≤ p.columns ∧ p.columns ≤ Int32.maxValue.toInt

theorem toInt_extent {first past : Int}
    (fits : Int32.minValue.toInt ≤ past - first ∧ past - first ≤ Int32.maxValue.toInt) :
    (extent first past).toInt = past - first := by
  rw [extent, ← Int32.ofInt_sub, ← Int32.ofIntLE_eq_ofInt fits.1 fits.2]
  exact Int32.toInt_ofIntLE

/-- Where they fit, the extents that are measured are those of the place. -/
theorem Fits.toInt_counts {p : GridPosition} (fits : p.Fits) :
    p.rowCount.toInt = p.rows ∧ p.columnCount.toInt = p.columns :=
  ⟨toInt_extent fits.rows, toInt_extent fits.columns⟩

end GridPosition

/-! ### Walks -/

/-- Where a walk stands: the rectangles so far, and the widgets still to visit, each with the place
of its parent, the next one first. -/
structure GridWalk where
  rects : Dict Rect
  pending : List (WidgetId × Point)

namespace GridWalk

/-- The walk that has the roots to visit, from the last one. -/
def start (t : WidgetTree) : GridWalk := ⟨.empty, t.roots.reverse.map (·, .origin)⟩

/-- Visit the next widget; its children follow, from the last one. A name without a widget is passed
over. -/
def visit (t : WidgetTree) (s : GridScale) (walk : GridWalk) : Option (WidgetId × GridWalk) :=
  match walk.pending with
  | [] => none
  | (id, at_) :: rest =>
    match t.get? id with
    | none => some (id, ⟨walk.rects, rest⟩)
    | some w =>
      let r := t.gridRect s w at_
      some (id, ⟨walk.rects.insert id r, w.children.reverse.map (·, r.topLeft) ++ rest⟩)

/-- The next visit is that of a widget. -/
def Visits (t : WidgetTree) (s : GridScale) (walk : GridWalk) (id : WidgetId) (next : GridWalk) :
    Prop :=
  walk.visit t s = some (id, next)

end GridWalk

namespace WidgetTree

/-- The place that a widget is measured from: the origin, or that of its parent. -/
def anchor? (t : WidgetTree) (rects : Dict Rect) (id : WidgetId) : Option Point :=
  match t.parentOf? id with
  | none => some .origin
  | some parent => (rects.get? parent).map Rect.topLeft

/-- How many rows a widget takes: its own, as 32 bits hold them, or if these are none as many as its
children need. -/
def TakesRows (t : WidgetTree) (w : Widget) (rows : Int) : Prop :=
  if 0 < w.position.rowCount then rows = w.position.rowCount.toInt
  else if w.children = [] then rows = 0
  else IsGreatest {bottom | ∃ c ∈ w.children,
    (t.get? c).map (·.position.bottomRow) = some bottom} rows

/-- All ways down from a widget are shorter than a number. -/
def Shallow (t : WidgetTree) : Nat → WidgetId → Prop
  | 0, _ => False
  | n + 1, id => ∀ c ∈ t.childrenOf id, Shallow t n c

end WidgetTree

namespace GridWalk

variable {t : WidgetTree} {s : GridScale}

/-! ### Walks end -/

/-- A walk visits widgets and all below them before it goes on, when it does so from each. -/
theorem exists_walk_all {depth : Nat} {ids : List WidgetId} (at_ : Point)
    (each : ∀ id ∈ ids, ∀ rects rest, ∃ visited, Trace (Visits t s) ⟨rects, (id, at_) :: rest⟩
      visited ⟨t.addGridRects s depth rects id at_, rest⟩) (rects : Dict Rect)
    (rest : List (WidgetId × Point)) :
    ∃ visited, Trace (Visits t s) ⟨rects, ids.map (·, at_) ++ rest⟩ visited
      ⟨ids.foldl (fun rects id => t.addGridRects s depth rects id at_) rects, rest⟩ := by
  induction ids generalizing rects with
  | nil => exact ⟨[], .nil⟩
  | cons id ids ih =>
    obtain ⟨first, hfirst⟩ := each id List.mem_cons_self rects (ids.map (·, at_) ++ rest)
    obtain ⟨more, hmore⟩ := ih (fun c hc => each c (List.mem_cons_of_mem _ hc)) _
    exact ⟨first ++ more, hfirst.append hmore⟩

/-- A walk visits a widget and all below it before it goes on. -/
theorem exists_walk_below {depth : Nat} {id : WidgetId} (shallow : t.Shallow depth id)
    (rects : Dict Rect) (at_ : Point) (rest : List (WidgetId × Point)) :
    ∃ visited, Trace (Visits t s) ⟨rects, (id, at_) :: rest⟩ visited
      ⟨t.addGridRects s depth rects id at_, rest⟩ := by
  induction depth generalizing id rects at_ rest with
  | zero => exact shallow.elim
  | succ depth ih =>
    cases hw : t.get? id with
    | none =>
      refine ⟨[id], .snoc .nil ?_⟩
      simp [Visits, visit, hw, WidgetTree.addGridRects]
    | some w =>
      have below : ∀ c ∈ w.children.reverse, t.Shallow depth c := fun c hc =>
        shallow c (WidgetTree.childrenOf_of_get? hw ▸ List.mem_reverse.mp hc)
      obtain ⟨visited, walk⟩ := exists_walk_all (t.gridRect s w at_).topLeft
        (fun c hc rects rest => ih (below c hc) rects _ rest)
        (rects.insert id (t.gridRect s w at_)) rest
      refine ⟨id :: visited, .cons (by simp only [Visits, visit, hw]; rfl) ?_⟩
      simpa only [WidgetTree.addGridRects, hw] using walk

/-- A walk ends with the rectangles of the tree when no way down from a root is too long. -/
theorem exists_walk (shallow : ∀ id ∈ t.roots, t.Shallow (t.size + 1) id) (s : GridScale) :
    ∃ visited, Trace (Visits t s) (start t) visited ⟨t.gridRects s, []⟩ := by
  obtain ⟨visited, walk⟩ := exists_walk_all (s := s) .origin (fun id hid rects rest =>
    exists_walk_below (shallow id (List.mem_reverse.mp hid)) rects _ rest) .empty []
  rw [List.append_nil] at walk
  exact ⟨visited, walk⟩

end GridWalk

namespace WidgetTree

variable {t : WidgetTree}

/-! ### Ways down -/

/-- On a way down no widget is met twice, so none is longer than there are widgets. -/
theorem Consistent.shallow_of_above (h : t.Consistent) (n : Nat) {id : WidgetId}
    (above : List WidgetId) (nodup : above.Nodup) (up : ∀ a ∈ above, Relation.TransGen t.Up id a)
    (room : t.size < n + above.length) : t.Shallow n id := by
  induction n generalizing id above with
  | zero =>
    have known : ∀ a ∈ above, t.contains a = true := fun a ha => by
      obtain ⟨b, -, step⟩ := Relation.TransGen.tail'_iff.mp (up a ha)
      exact contains_of_mem_childrenOf (h.linked.mem_of_up _ _ step)
    have := length_le_size nodup known
    omega
  | succ n ih =>
    intro c hc
    have step := h.linked.up_of_mem _ _ hc
    have fresh : id ∉ above := fun mem => h.rooted.not_up_self id (up id mem)
    refine ih (id :: above) (List.nodup_cons.mpr ⟨fresh, nodup⟩) ?_ ?_
    · exact List.forall_mem_cons.mpr ⟨.single step, fun a ha => .head step (up a ha)⟩
    · rw [List.length_cons]
      omega

theorem Consistent.shallow (h : t.Consistent) (id : WidgetId) : t.Shallow (t.size + 1) id :=
  h.shallow_of_above _ [] .nil (by simp) (by simp)

/-! ### Roots -/

theorem Consistent.sublist_roots (h : t.Consistent) : t.roots.Sublist t.entries.keys := by
  have names : t.entries.values.map (·.widget.id) = t.entries.keys := by
    refine (List.map_map ..).trans (List.map_congr_left fun e he => ?_)
    exact h.keyed e.1 _ (by simp [get?, (Dict.mem_entries_iff _ _ _).mp he])
  exact names ▸ List.filter_sublist.map _

/-- The roots of a consistent tree are its widgets without a parent. -/
theorem Consistent.mem_roots_iff (h : t.Consistent) {id : WidgetId} :
    id ∈ t.roots ↔ t.contains id = true ∧ t.parentOf? id = none := by
  have there : ∀ {id w p}, t.get? id = some w → w.parent = some p → t.contains p = true :=
    fun {id w p} hw up => contains_of_mem_childrenOf
      (h.linked.mem_of_up p id ((parentOf?_of_get? hw).trans up))
  simp only [roots, List.mem_map, List.mem_filter]
  constructor
  · rintro ⟨e, ⟨he, alone⟩, rfl⟩
    obtain ⟨id, hw⟩ := mem_values_iff.mp ⟨e, he, rfl⟩
    rw [h.keyed id _ hw]
    refine ⟨contains_iff.mpr ⟨_, hw⟩, (parentOf?_of_get? hw).trans ?_⟩
    cases up : e.widget.parent with
    | none => rfl
    | some p => simp [up, there hw up] at alone
  · rintro ⟨known, alone⟩
    obtain ⟨w, hw⟩ := contains_iff.mp known
    obtain ⟨e, he, rfl⟩ := mem_values_iff.mpr ⟨id, hw⟩
    have top : e.widget.parent = none := (parentOf?_of_get? hw).symm.trans alone
    exact ⟨e, ⟨he, by rw [top]⟩, h.keyed id _ hw⟩

end WidgetTree

namespace GridWalk

/-! ### What a walk keeps -/

/-- The widgets that a walk has still to visit. -/
def ahead (walk : GridWalk) : List WidgetId := walk.pending.map Prod.fst

/-- A walk in good order: visited widgets are measured, each from where its parent is, and their
children are visited or still to visit, as is every widget without a parent; no widget comes up
twice. -/
structure Sound (t : WidgetTree) (s : GridScale) (visited : List WidgetId) (walk : GridWalk) :
    Prop where
  nodup : (visited ++ walk.ahead).Nodup
  known : ∀ id ∈ visited ++ walk.ahead, t.contains id = true
  roots : ∀ id ∈ t.roots, id ∈ visited ++ walk.ahead
  closed : ∀ id ∈ visited, ∀ c ∈ t.childrenOf id, c ∈ visited ++ walk.ahead
  measured : ∀ id, (walk.rects.get? id).isSome = true ↔ id ∈ visited
  placed : ∀ id w r, t.get? id = some w → walk.rects.get? id = some r →
    ∃ at_, t.anchor? walk.rects id = some at_ ∧ r = t.gridRect s w at_
  anchored : ∀ e ∈ walk.pending, t.anchor? walk.rects e.1 = some e.2

variable {t : WidgetTree} {s : GridScale}

theorem sound_start (h : t.Consistent) (s : GridScale) : Sound t s [] (start t) := by
  have ahead : (start t).ahead = t.roots.reverse := by
    simp [start, GridWalk.ahead, Function.comp_def]
  have top : ∀ id ∈ t.roots, t.contains id = true ∧ t.parentOf? id = none :=
    fun id hid => h.mem_roots_iff.mp hid
  refine ⟨?_, ?_, ?_, by simp, by simp [start], by simp [start], ?_⟩
  · rw [ahead, List.nil_append, List.nodup_reverse]
    exact h.sublist_roots.nodup (t.entries.pairwise_keys.imp String.ne_of_lt)
  · rw [ahead, List.nil_append]
    exact fun id hid => (top id (List.mem_reverse.mp hid)).1
  · simp [ahead]
  · intro e he
    obtain ⟨id, hid, rfl⟩ := List.mem_map.mp he
    simp [WidgetTree.anchor?, (top id (List.mem_reverse.mp hid)).2]

theorem anchor?_eq_some_iff {rects : Dict Rect} {id : WidgetId} {at_ : Point} :
    t.anchor? rects id = some at_ ↔ (t.parentOf? id = none ∧ at_ = .origin) ∨
      ∃ p r, t.Up id p ∧ rects.get? p = some r ∧ at_ = r.topLeft := by
  unfold WidgetTree.anchor? WidgetTree.Up
  cases t.parentOf? id with
  | none => simp [eq_comm]
  | some p => simp [eq_comm]

/-- A new rectangle does not change where widgets are measured from. -/
theorem anchor?_insert {rects : Dict Rect} {id c : WidgetId} {at_ : Point}
    (new : rects.get? id = none) (anchored : t.anchor? rects c = some at_) (r : Rect) :
    t.anchor? (rects.insert id r) c = some at_ := by
  rw [anchor?_eq_some_iff] at anchored ⊢
  refine anchored.imp_right fun ⟨p, r', up, hp, same⟩ => ⟨p, r', up, ?_, same⟩
  have other : id ≠ p := fun same => by simp [← same, new] at hp
  rw [Dict.get?_insert, if_neg other, hp]

namespace Sound

variable {visited : List WidgetId} {walk next : GridWalk} {id : WidgetId}

/-- What came up has a parent that was visited, if it has one. -/
theorem parent_visited (sound : Sound t s visited walk) {c : WidgetId}
    (mem : c ∈ visited ++ walk.ahead) (up : t.Up c id) : id ∈ visited := by
  have anchored : ∃ at_, t.anchor? walk.rects c = some at_ := by
    rcases List.mem_append.mp mem with mem | mem
    · obtain ⟨w, hw⟩ := WidgetTree.contains_iff.mp (sound.known c (List.mem_append_left _ mem))
      obtain ⟨r, hr⟩ := Option.isSome_iff_exists.mp ((sound.measured c).mpr mem)
      obtain ⟨at_, anchored, -⟩ := sound.placed c w r hw hr
      exact ⟨at_, anchored⟩
    · obtain ⟨e, he, rfl⟩ := List.mem_map.mp mem
      exact ⟨e.2, sound.anchored e he⟩
  obtain ⟨at_, anchored⟩ := anchored
  rcases anchor?_eq_some_iff.mp anchored with ⟨alone, -⟩ | ⟨p, r, up', hp, -⟩
  · simp [WidgetTree.Up, alone] at up
  · obtain rfl := up.unique up'
    exact (sound.measured id).mp (by simp [hp])

/-- What a visit does. -/
theorem visits_inv (sound : Sound t s visited walk) (step : Visits t s walk id next) :
    ∃ w at_ rest, t.get? id = some w ∧ walk.pending = (id, at_) :: rest ∧
      next = ⟨walk.rects.insert id (t.gridRect s w at_),
        w.children.reverse.map (·, (t.gridRect s w at_).topLeft) ++ rest⟩ := by
  unfold Visits GridWalk.visit at step
  cases pending : walk.pending with
  | nil => simp [pending] at step
  | cons e rest =>
    obtain ⟨id', at_⟩ := e
    have there := sound.known id' (by simp [ahead, pending])
    obtain ⟨w, hw⟩ := WidgetTree.contains_iff.mp there
    simp only [pending, hw, Option.some.injEq, Prod.mk.injEq] at step
    obtain ⟨rfl, rfl⟩ := step
    exact ⟨w, at_, rest, hw, rfl, rfl⟩

/-- A visit keeps a walk in good order. -/
theorem visit (h : t.Consistent) (sound : Sound t s visited walk)
    (step : Visits t s walk id next) : Sound t s (visited ++ [id]) next := by
  obtain ⟨w, at_, rest, hw, pending, rfl⟩ := sound.visits_inv step
  have old : walk.ahead = id :: rest.map Prod.fst := by simp [ahead, pending]
  have new : ahead ⟨walk.rects.insert id (t.gridRect s w at_),
      w.children.reverse.map (·, (t.gridRect s w at_).topLeft) ++ rest⟩ =
      w.children.reverse ++ rest.map Prod.fst := by simp [ahead, Function.comp_def]
  have cameUp : ∀ x, x ∈ visited ++ [id] ++ (w.children.reverse ++ rest.map Prod.fst) ↔
      x ∈ visited ++ walk.ahead ∨ x ∈ w.children := by
    intro x
    simp only [old, List.mem_append, List.mem_cons, List.mem_reverse, List.not_mem_nil, or_false]
    tauto
  have child : ∀ c ∈ w.children, t.Up c id := fun c hc =>
    h.linked.up_of_mem id c (WidgetTree.childrenOf_of_get? hw ▸ hc)
  have nodup : (visited ++ id :: rest.map Prod.fst).Nodup := old ▸ sound.nodup
  have unseen : id ∉ visited := fun mem =>
    (List.nodup_append.mp nodup).2.2 id mem id List.mem_cons_self rfl
  have fresh : walk.rects.get? id = none := by
    rw [← Option.not_isSome_iff_eq_none, sound.measured]
    exact unseen
  constructor
  case nodup =>
    -- a child that came up before has a parent that was visited, but this one is visited only now
    have apart : w.children.reverse.Disjoint (visited ++ [id] ++ rest.map Prod.fst) := by
      intro c hc mem
      have up := child c (List.mem_reverse.mp hc)
      exact unseen (sound.parent_visited (by rw [old]; simpa using mem) up)
    have unique : w.children.Nodup := WidgetTree.childrenOf_of_get? hw ▸ h.nodup id
    rw [new]
    have swap : (visited ++ [id] ++ (w.children.reverse ++ rest.map Prod.fst)).Perm
        (w.children.reverse ++ (visited ++ [id] ++ rest.map Prod.fst)) := by
      rw [← List.append_assoc, ← List.append_assoc (List.reverse _)]
      exact List.perm_append_comm.append_right _
    exact swap.nodup_iff.mpr
      ((List.nodup_reverse.mpr unique).append (by simpa using nodup) apart)
  case known =>
    intro x mem
    rcases (cameUp x).mp (new ▸ mem) with mem | mem
    · exact sound.known x mem
    · exact WidgetTree.contains_of_parentOf? (child x mem)
  case roots =>
    exact fun x hx => new ▸ (cameUp x).mpr (.inl (sound.roots x hx))
  case closed =>
    intro x mem c hc
    refine new ▸ (cameUp c).mpr ?_
    rcases List.mem_append.mp mem with mem | mem
    · exact .inl (sound.closed x mem c hc)
    · obtain rfl := List.mem_singleton.mp mem
      exact .inr (WidgetTree.childrenOf_of_get? hw ▸ hc)
  case measured =>
    intro x
    rw [Dict.get?_insert, List.mem_append, List.mem_singleton, ← sound.measured]
    by_cases same : id = x
    · simp [same]
    · simp [same, Ne.symm same]
  case placed =>
    intro x v r hv hr
    rcases Dict.get?_insert_eq_some_iff.mp hr with ⟨rfl, rfl⟩ | ⟨-, hr⟩
    · obtain rfl := Option.some.inj (hw.symm.trans hv)
      have anchored := sound.anchored (id, at_) (by simp [pending])
      exact ⟨at_, anchor?_insert fresh anchored _, rfl⟩
    · obtain ⟨at', anchored, same⟩ := sound.placed x v r hv hr
      exact ⟨at', anchor?_insert fresh anchored _, same⟩
  case anchored =>
    intro e he
    rcases List.mem_append.mp he with he | he
    · obtain ⟨c, hc, rfl⟩ := List.mem_map.mp he
      exact anchor?_eq_some_iff.mpr (.inr ⟨id, _, child c (List.mem_reverse.mp hc),
        Dict.get?_insert_self _ _ _, rfl⟩)
    · exact anchor?_insert fresh (sound.anchored e (by simp [pending, he])) _

/-- A walk in good order that has ended visited all widgets. -/
theorem mem_of_ended (h : t.Consistent) {rects : Dict Rect}
    (sound : Sound t s visited ⟨rects, []⟩) : id ∈ visited ↔ t.contains id = true := by
  have cameUp : ∀ x ∈ visited ++ ahead ⟨rects, []⟩, x ∈ visited := by simp [ahead]
  refine ⟨fun mem => sound.known id (List.mem_append_left _ mem), fun there => ?_⟩
  obtain ⟨root, top, chains⟩ := h.rooted
  have path := chains id there
  induction path using Relation.ReflTransGen.head_induction_on with
  | refl => exact cameUp root (sound.roots root (h.mem_roots_iff.mpr ((top root).mpr rfl)))
  | head step _ ih =>
    have mem := h.linked.mem_of_up _ _ step
    exact cameUp _ (sound.closed _ (ih (WidgetTree.contains_of_mem_childrenOf mem)) _ mem)

end Sound

theorem sound_of_trace (h : t.Consistent) {visited : List WidgetId} {walk : GridWalk}
    (trace : Trace (Visits t s) (start t) visited walk) : Sound t s visited walk := by
  induction trace with
  | nil => exact sound_start h s
  | snoc _ step sound => exact sound.visit h step

end GridWalk

namespace WidgetTree

variable {t : WidgetTree}

/-! ### Rows and layers -/

theorem mem_bottomRows_iff {w : Widget} {bottom : Int} :
    bottom ∈ w.children.filterMap (fun c => (t.get? c).map (·.position.bottomRow)) ↔
      ∃ c ∈ w.children, (t.get? c).map (·.position.bottomRow) = some bottom :=
  List.mem_filterMap

/-- The rows of the content are those that the children need. -/
theorem takesRows_contentRows {w : Widget} (there : ∀ c ∈ w.children, t.contains c = true) :
    t.TakesRows w
      (if 0 < w.position.rowCount then w.position.rowCount.toInt else t.contentRows w) := by
  unfold TakesRows contentRows
  by_cases own : 0 < w.position.rowCount
  · simp [own]
  by_cases childless : w.children = []
  · simp [own, childless]
  simp only [own, childless, if_false, ← mem_bottomRows_iff]
  cases rows : w.children.filterMap fun c => (t.get? c).map (·.position.bottomRow) with
  | nil =>
    obtain ⟨c, hc⟩ := List.exists_mem_of_ne_nil _ childless
    obtain ⟨cw, hcw⟩ := contains_iff.mp (there c hc)
    simpa [hcw] using List.filterMap_eq_nil_iff.mp rows c hc
  | cons row rest =>
    have top : (row :: rest).max? = some (rest.foldl max row) := List.max?_cons'
    obtain ⟨mem, greatest⟩ := List.max?_eq_some_iff.mp top
    exact ⟨mem, greatest⟩

/-- A layer can be measured when its widgets can. -/
theorem isSome_layerRect? {b : BarContext} {l : FlexLayer} (filled : l.children ≠ [])
    (measured : ∀ id ∈ l.ids, (b.measure id).isSome = true) : (b.layerRect? l).isSome = true := by
  obtain ⟨c, hc⟩ := List.exists_mem_of_ne_nil _ filled
  have mem : c.id ∈ l.ids := List.mem_map_of_mem hc
  obtain ⟨r, hr⟩ := Option.isSome_iff_exists.mp (measured c.id mem)
  unfold BarContext.layerRect?
  split
  · rename_i unmeasured
    simpa [BarContext.localRect?, hr] using List.filterMap_eq_nil_iff.mp unmeasured c.id mem
  · rfl

/-- In a consistent tree the walk that visits widgets from the top down ends, having visited every
widget once, with rectangles for exactly the widgets. Each stands where its parent stands, the root
at the origin, plus its own left column and top row, and is as high as its rows, or if it has none
as its content; and all layers can be measured. Rows and columns are counted in 32 bits: where the
extents of a place fit in these, nothing wraps around and they are the differences of its edges. -/
theorem Consistent.gridRects_spec (h : t.Consistent) (s : GridScale) :
    (∃ visited, Trace (GridWalk.Visits t s) (.start t) visited ⟨t.gridRects s, []⟩ ∧
      visited.Perm t.entries.keys) ∧
    (∀ id, ((t.gridRects s).get? id).isSome = t.contains id) ∧
    (∀ id w, t.get? id = some w → ∃ at_ rows, t.anchor? (t.gridRects s) id = some at_ ∧
      t.TakesRows w rows ∧ (t.gridRects s).get? id = some
        ⟨at_.x + Float.ofInt w.position.leftColumn * s.column,
          at_.y + Float.ofInt w.position.topRow * s.row,
          Float.ofInt w.position.columnCount.toInt * s.column, Float.ofInt rows * s.row⟩ ∧
      (w.position.Fits → w.position.rowCount.toInt = w.position.rows ∧
        w.position.columnCount.toInt = w.position.columns)) ∧
    (∀ id w, t.get? id = some w → ∀ l ∈ w.layers, ∀ config container,
      (BarContext.layerRect? ⟨(t.gridRects s).get?, config, container, id⟩ l).isSome = true) := by
  obtain ⟨visited, walk⟩ := GridWalk.exists_walk (fun id _ => h.shallow id) s
  have sound := GridWalk.sound_of_trace h walk
  have mem : ∀ id, id ∈ visited ↔ t.contains id = true := fun id => sound.mem_of_ended h
  have measured : ∀ id, ((t.gridRects s).get? id).isSome = t.contains id := fun id =>
    Bool.eq_iff_iff.mpr ((sound.measured id).trans (mem id))
  have child : ∀ id w, t.get? id = some w → ∀ c ∈ w.children, t.contains c = true :=
    fun id w hw c hc => contains_of_parentOf? (h.linked.up_of_mem id c (childrenOf_of_get? hw ▸ hc))
  refine ⟨⟨visited, walk, ?_⟩, measured, fun id w hw => ?_, fun id w hw l hl config container => ?_⟩
  · have nodup : visited.Nodup := (List.nodup_append.mp sound.nodup).1
    refine (List.perm_ext_iff_of_nodup nodup ?_).mpr fun id => ?_
    · exact t.entries.pairwise_keys.imp String.ne_of_lt
    · exact (mem id).trans (Dict.mem_keys_iff _ _).symm
  · have there := contains_iff.mpr ⟨w, hw⟩
    obtain ⟨r, hr⟩ := Option.isSome_iff_exists.mp ((measured id).trans there)
    obtain ⟨at_, anchored, rfl⟩ := sound.placed id w r hw hr
    exact ⟨at_, _, anchored, takesRows_contentRows (child id w hw), hr,
      fun fits => fits.toInt_counts⟩
  · have layered : t.layersOf id ≠ [] := layersOf_of_get? hw ▸ List.ne_nil_of_mem hl
    have arranged := h.linked.arranged id layered
    rw [layersOf_of_get? hw, childrenOf_of_get? hw] at arranged
    refine isSome_layerRect? (arranged.filled l hl) fun c hc => (measured c).trans ?_
    exact child id w hw c (arranged.perm.subset (List.mem_flatMap.mpr ⟨l, hl, hc⟩))

-- a place one row higher than 32 bits can tell is as high as its content
example : ((ofList [{ Widget.ofType mainContainerId canvasType with
    position := ⟨-1, 2147483647, 0, 64⟩ }]).gridRects ⟨10, 5⟩).get? mainContainerId =
    some ⟨0, -5, 640, 0⟩ := by decide +kernel

/-- A canvas without rows of its own around a box with a text, each away from the edge. -/
def boxed : WidgetTree :=
  .ofList [
    { Widget.ofType mainContainerId canvasType with
      children := ["box"]
      position := ⟨0, 0, 0, 64⟩
      layers := [⟨[⟨"box", .start⟩], false⟩] },
    { Widget.ofType "box" containerType with
      parent := some mainContainerId
      children := ["text"]
      position := ⟨2, 6, 10, 20⟩ },
    { Widget.ofType "text" "TEXT_WIDGET" with parent := some "box", position := ⟨1, 2, 1, 3⟩ }]

theorem gridRects_spec_boxed : boxed.Consistent ∧
    (∃ visited, Trace (GridWalk.Visits boxed ⟨10, 5⟩) (.start boxed) visited
      ⟨boxed.gridRects ⟨10, 5⟩, []⟩ ∧ visited.Perm ["0", "box", "text"]) ∧
    (boxed.gridRects ⟨10, 5⟩).get? mainContainerId = some ⟨0, 0, 640, 30⟩ ∧
    (boxed.gridRects ⟨10, 5⟩).get? "text" = some ⟨110, 15, 20, 5⟩ := by
  have consistent : boxed.Consistent := WellFormed.consistent (by decide +kernel)
  have keys : boxed.entries.keys = ["0", "box", "text"] := by decide +kernel
  obtain ⟨⟨visited, walk, perm⟩, -⟩ := consistent.gridRects_spec ⟨10, 5⟩
  exact ⟨consistent, ⟨visited, walk, keys ▸ perm⟩, by decide +kernel, by decide +kernel⟩

end WidgetTree

end AppBuilder
