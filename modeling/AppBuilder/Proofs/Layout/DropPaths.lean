import AppBuilder.Layout.Drop
import AppBuilder.Proofs.Layout.Agreement

/-!
The ways to carry out a drop give the same tree.

The ways differ in how a new widget comes into the tree and in which layers get their columns
shared once more. Sharing writes nothing where each filling widget has its share
(`Balanced.shareAll_eq`), and a move leaves its target so. The rest of a move looks at widgets
only, and not at when they were written (`Agrees.rearrange`), and the move takes a new widget out
of the children of its container before it puts it there.

Main statement: `drop_paths_agree`.
-/

namespace AppBuilder

namespace WidgetTree

/-- A container is balanced once it is laid out, if its layers are in order. -/
theorem balanced_rearrange_of_flagged (c : LayoutConfig) {t : WidgetTree} {parent : WidgetId}
    (nodup : (Layers.flatten (t.layersOf parent)).Nodup)
    (flagged : ∀ l ∈ t.layersOf parent, t.fills l.children = l.hasFill) :
    (t.rearrange c parent).Balanced c parent :=
  ((balanced_shareAll_of_flagged c nodup flagged).placed
    (placed_placeChildren c _ parent)).growContainer c parent _

theorem contains_eq_isSome (t : WidgetTree) (id : WidgetId) :
    t.contains id = (t.get? id).isSome := by
  simp [contains, Dict.contains, get?]

/-! ### Moves -/

/-- What the layers of a target become depends on its layers, and on which widgets are there and
fill their rows. -/
theorem layersAfter_congr {t s : WidgetTree} {d : DropTarget}
    (contains : ∀ id, t.contains id = s.contains id) (isFill : ∀ id, t.isFill id = s.isFill id)
    (layers : t.layersOf d.parent = s.layersOf d.parent) (moved : List WidgetId) :
    t.layersAfter moved d = s.layersAfter moved d := by
  have built : FlexLayer.ofChildren t = FlexLayer.ofChildren s :=
    FlexLayer.ofChildren_congr contains isFill
  have without : ∀ names layers, Layers.without t names layers = Layers.without s names layers :=
    Layers.without_congr contains isFill
  simp only [layersAfter, Layers.mergeInto, FlexLayer.ofBuckets, Layers.singleRow, built, without,
    layers]

theorem moveTo_of_none {t : WidgetTree} (c : LayoutConfig) {selection : List WidgetId}
    {d : DropTarget} (idle : t.movable selection d.parent = []) : t.moveTo c selection d = t := by
  unfold WidgetTree.moveTo
  rw [idle]
  split <;> rfl

/-- A move of widgets that can be dropped leaves its target balanced, if it moves any or the
target was so before. -/
theorem WellFormed.balanced_target {t : WidgetTree} (h : t.WellFormed) (c : LayoutConfig)
    {selection : List WidgetId} {d : DropTarget} (droppable : t.Droppable selection d)
    (target : t.contains d.parent = true)
    (shared : t.movable selection d.parent ≠ [] ∨ t.Balanced c d.parent) :
    (t.moveTo c selection d).Balanced c d.parent := by
  rcases eq_or_ne (t.movable selection d.parent) [] with idle | nonempty
  · rw [moveTo_of_none c idle]
    exact shared.resolve_left (absurd idle)
  · have fits := h.fits_movable droppable target nonempty
    have handed := handed_handOverAll h.linked c fits.nodup (fits.exists_up h.rooted) d.parent
    rw [moveTo_of_movable c target nonempty]
    exact balanced_rearrange c (h.settle handed fits).tidy fun other => absurd rfl other

/-! ### New widgets -/

section New

variable {t : WidgetTree} {n : NewWidget} {d : DropTarget}

/-- A tree with a new widget that names its container. -/
structure Introduced (t : WidgetTree) (n : NewWidget) (parent : WidgetId) (s : WidgetTree) :
    Prop where
  contains_eq : ∀ id, s.contains id = if n.id = id then true else t.contains id
  parentOf?_eq : ∀ id, s.parentOf? id = if n.id = id then some parent else t.parentOf? id

section Introduced

variable {s : WidgetTree} (introduced : t.Introduced n d.parent s) (linked : t.Linked)
  (new : t.contains n.id = false) (target : t.contains d.parent = true)
include introduced linked new target

theorem Introduced.movable_eq : s.movable [n.id] d.parent = [n.id] := by
  have other : n.id ≠ d.parent := fun same => by simp [same, target] at new
  -- nothing is below the new widget, so the target is not
  have bottom : ∀ x, ¬ s.Up x n.id := by
    intro x up
    rw [Up, introduced.parentOf?_eq] at up
    split at up
    · exact other (Option.some.inj up).symm
    · have known := contains_of_mem_childrenOf (linked.mem_of_up _ _ up)
      rw [new] at known
      cases known
  have apart : s.isAncestorOrSelf n.id d.parent = false := by
    rw [Bool.eq_false_iff]
    intro above
    rcases (up_of_climb above).cases_tail with same | ⟨x, -, up⟩
    · exact other same
    · exact bottom x up
  simp [movable, introduced.contains_eq, apart]

/-- The new widget only has to settle in, for it names the target as its parent. -/
theorem Introduced.moveTo_eq (c : LayoutConfig) :
    s.moveTo c [n.id] d = (s.settle [n.id] d).rearrange c d.parent := by
  have movable := introduced.movable_eq linked new target
  have there : s.contains d.parent = true := by
    rw [introduced.contains_eq, target, ite_self]
  have stays : s.handOverAll c [n.id] d.parent = s := by
    simp [handOverAll, handOver, introduced.parentOf?_eq, NameSet.empty]
  rw [moveTo_of_movable c there (by simp [movable]), movable, stays]

end Introduced

theorem get?_insert (t : WidgetTree) (w : Widget) (id : WidgetId) :
    (t.insert w).get? id = if w.id = id then some w else t.get? id :=
  get?_write t w.id id w

/-- The tree with a new widget that no children list has. -/
def withNew (t : WidgetTree) (n : NewWidget) (parent : WidgetId) : WidgetTree :=
  t.insert (n.toWidget parent)

/-- The tree with a new widget as the last child of its container. -/
def withLast (t : WidgetTree) (n : NewWidget) (parent : WidgetId) : WidgetTree :=
  (t.withNew n parent).modify parent fun w => { w with children := w.children ++ [n.id] }

theorem introduced_withNew (t : WidgetTree) (n : NewWidget) (parent : WidgetId) :
    t.Introduced n parent (t.withNew n parent) where
  contains_eq id := by
    rw [contains_eq_isSome, withNew, get?_insert]
    split
    · rw [if_pos ‹_›, Option.isSome_some]
    · rw [if_neg ‹_›, ← contains_eq_isSome]
  parentOf?_eq id := by
    rw [parentOf?, withNew, get?_insert]
    split
    · rw [if_pos ‹_›]
      rfl
    · rw [if_neg ‹_›, ← parentOf?]

theorem kin_withLast (t : WidgetTree) (n : NewWidget) (parent : WidgetId) :
    (t.withNew n parent).Kin (t.withLast n parent) :=
  kin_modify (fun _ => rfl) fun _ => rfl

theorem introduced_withLast (t : WidgetTree) (n : NewWidget) (parent : WidgetId) :
    t.Introduced n parent (t.withLast n parent) where
  contains_eq id := by
    rw [← (kin_withLast t n parent).contains_eq, (introduced_withNew t n parent).contains_eq]
  parentOf?_eq id := by
    rw [← (introduced_withNew t n parent).parentOf?_eq, withLast, parentOf?_modify_of_same]
    exact fun _ => rfl

/-- Settling takes the new widget out of the children first, so that it makes no difference
whether it was there. -/
theorem agrees_settle (t : WidgetTree) (n : NewWidget) (d : DropTarget) :
    ((t.withLast n d.parent).settle [n.id] d).Agrees ((t.withNew n d.parent).settle [n.id] d) := by
  have layers : (t.withLast n d.parent).layersAfter [n.id] d =
      (t.withNew n d.parent).layersAfter [n.id] d := by
    refine layersAfter_congr (fun id => ?_) (fun id => ?_) ?_ _
    · exact ((kin_withLast t n d.parent).contains_eq id).symm
    · rw [withLast, isFill_modify]
      exact fun _ => rfl
    · rw [withLast, layersOf_modify_of_same]
      exact fun _ => rfl
  intro x
  unfold settle
  rw [layers, get?_modify, get?_modify, withLast, get?_modify]
  split
  · rw [Option.map_map]
    congr 1
    funext w
    simp
  · rfl

theorem Agrees.balanced {c : LayoutConfig} {t s : WidgetTree} (h : t.Agrees s) {id : WidgetId}
    (balanced : s.Balanced c id) : t.Balanced c id :=
  balanced.congr (by rw [layersOf, layersOf, h id]) (fun x _ => by rw [isFill, isFill, h x])
    fun x _ => .inl (widthOf_congr (by rw [placeOf?, placeOf?, h x]))

/-- The layers of the target of a new widget are in order once it has settled in. -/
theorem WellFormed.balanced_new (h : t.WellFormed) (c : LayoutConfig)
    (new : t.contains n.id = false) (target : t.contains d.parent = true)
    (droppable : t.Droppable [n.id] d) :
    (((t.withNew n d.parent).settle [n.id] d).rearrange c d.parent).Balanced c d.parent := by
  have other : n.id ≠ d.parent := fun same => by simp [same, target] at new
  have introduced := introduced_withNew t n d.parent
  have own : (t.withNew n d.parent).get? d.parent = t.get? d.parent := by
    rw [withNew, get?_insert]
    exact if_neg other
  have children : (t.withNew n d.parent).childrenOf d.parent = t.childrenOf d.parent := by
    rw [childrenOf, childrenOf, own]
  have layers : (t.withNew n d.parent).layersOf d.parent = t.layersOf d.parent := by
    rw [layersOf, layersOf, own]
  have fresh : n.id ∉ t.childrenOf d.parent := fun mem => by
    have known := contains_of_parentOf? (h.linked.up_of_mem _ _ mem)
    rw [new] at known
    cases known
  have arranged : (t.withNew n d.parent).layersAfter [n.id] d ≠ [] →
      (t.withNew n d.parent).Arranges ((t.withNew n d.parent).layersAfter [n.id] d)
        ([n.id] ++ (t.childrenOf d.parent).filter fun id => !([n.id].contains id)) := by
    intro layered
    rw [← children]
    refine arranges_layersAfter (List.cons_ne_nil _ _) (fun m hm => ?_) (fun id hid => ?_)
      (fun bare => ?_) (fun vertical bare id hid => ?_) layered
    · rw [List.mem_singleton.mp hm, introduced.contains_eq, if_pos rfl]
    · have up := h.linked.up_of_mem d.parent id (children ▸ hid)
      rw [introduced.contains_eq, contains_of_parentOf? up, ite_self]
    · rw [layers] at bare ⊢
      rw [children]
      exact (h.linked.arranged d.parent bare).perm
    · exact droppable.free vertical (layers ▸ bare) id (children ▸ hid)
  have settled : ((t.withNew n d.parent).settle [n.id] d).layersOf d.parent =
      (t.withNew n d.parent).layersAfter [n.id] d := by
    obtain ⟨w, hw⟩ := contains_iff.mp target
    rw [WidgetTree.settle, layersOf_modify (own.trans hw), if_pos rfl]
  refine balanced_rearrange_of_flagged c ?_ ?_
  · rw [settled]
    by_cases bare : (t.withNew n d.parent).layersAfter [n.id] d = []
    · simp [bare]
    · rw [(arranged bare).perm.nodup_iff]
      simpa [fresh] using (h.nodup d.parent).filter _
  · intro l hl
    rw [settled] at hl
    rw [← (arranged (List.ne_nil_of_mem hl)).flagged l hl]
    refine fills_congr (fun id => ?_) l.children
    rw [WidgetTree.settle, isFill_modify]
    exact fun _ => rfl

end New

end WidgetTree

/-! ### Drops -/

namespace DropEvent

open WidgetTree

/-- The widgets that an event drops. -/
def dropped : DropEvent → List WidgetId
  | create n _ => [n.id]
  | move moved _ => moved

/-- The tree that an event moves its widgets in: a new widget is the last child of its
container. -/
def begin (t : WidgetTree) : DropEvent → Except DropError WidgetTree
  | create n d => WidgetFactory.lastChild t d.parent n
  | move _ _ => .ok t

section Paths

variable {t : WidgetTree} {c : LayoutConfig}

/-- What the ways to carry out an event lead to: running it, placing its widgets, or just moving
them. All agree if the event makes its widget, moves one or finds the target shared; if it moves
none, the ways differ in what they share. -/
structure PathsAgree (c : LayoutConfig) (t : WidgetTree) (e : DropEvent)
    (start after placed : WidgetTree) : Prop where
  begin_eq : e.begin t = .ok start
  run_eq : e.run c .lastChild t = .ok after
  place_eq : e.place c t = .ok placed
  agree : (∃ n d, e = .create n d) ∨ start.movable e.dropped e.target.parent ≠ [] ∨
      start.Balanced c e.target.parent →
    after = start.moveTo c e.dropped e.target ∧ placed.widgets = after.widgets
  share : start.movable e.dropped e.target.parent = [] →
    start.moveTo c e.dropped e.target = start ∧
    after = (if e.target.direction = .vertical then start.shareAll c e.target.parent
      else start) ∧
    placed = start.shareAll c e.target.parent

theorem paths_agree_move (h : t.WellFormed) (c : LayoutConfig) {moved : List WidgetId}
    {d : DropTarget} (nonempty : moved ≠ []) (target : t.contains d.parent = true)
    (droppable : t.Droppable moved d) :
    PathsAgree c t (.move moved d) t
      (if d.direction = .vertical then (t.moveTo c moved d).shareAll c d.parent
        else t.moveTo c moved d)
      ((t.moveTo c moved d).shareAll c d.parent) := by
  obtain ⟨first, rest, rfl⟩ := List.exists_cons_of_ne_nil nonempty
  refine ⟨rfl, rfl, rfl, fun either => ?_, fun idle => ?_⟩
  · have shared := either.resolve_left (by simp)
    have same := (h.balanced_target c droppable target shared).shareAll_eq
    simp only [dropped, DropEvent.target, same, ite_self, and_self]
  · have stays : t.moveTo c (first :: rest) d = t := moveTo_of_none c idle
    refine ⟨stays, ?_, ?_⟩
    · rw [stays]
      rfl
    · rw [stays]
      rfl

theorem paths_agree_create (h : t.WellFormed) (c : LayoutConfig) {n : NewWidget}
    {d : DropTarget} (new : t.contains n.id = false) (target : t.contains d.parent = true)
    (droppable : t.Droppable [n.id] d) :
    PathsAgree c t (.create n d) (t.withLast n d.parent)
      ((t.withLast n d.parent).moveTo c [n.id] d) ((t.withNew n d.parent).moveTo c [n.id] d) := by
  have last := introduced_withLast t n d.parent
  have alone := introduced_withNew t n d.parent
  have agrees : ((t.withLast n d.parent).moveTo c [n.id] d).Agrees
      ((t.withNew n d.parent).moveTo c [n.id] d) := by
    rw [last.moveTo_eq h.linked new target, alone.moveTo_eq h.linked new target]
    exact (agrees_settle t n d).rearrange c d.parent
  have balanced : ((t.withNew n d.parent).moveTo c [n.id] d).Balanced c d.parent := by
    rw [alone.moveTo_eq h.linked new target]
    exact h.balanced_new c new target droppable
  have begin_eq : WidgetFactory.lastChild t d.parent n = .ok (t.withLast n d.parent) := by
    have there : (t.withNew n d.parent).contains d.parent = true := by
      rw [alone.contains_eq, target, ite_self]
    exact if_pos there
  have created : ((t.withLast n d.parent).contains n.id) = true := by
    rw [last.contains_eq, if_pos rfl]
  refine ⟨begin_eq, ?_, ?_, fun _ => ⟨rfl, agrees.widgets_eq.symm⟩, fun idle => ?_⟩
  · have shared := (agrees.balanced balanced).shareLayer_eq d.layer
    rw [run, begin_eq]
    change (if (t.withLast n d.parent).contains n.id = true then _ else _) = _
    rw [if_pos created]
    simp only [shared, ite_self]
    rfl
  · rw [place]
    exact congrArg Except.ok balanced.shareAll_eq
  · have all := last.movable_eq h.linked new target
    exact absurd (all.symm.trans idle) (List.cons_ne_nil _ _)

/-- For a drop into a canvas that can take it, running the event with a factory that makes a new
widget the last child of its container, placing its widgets, and the move alone all give the same
tree, if the event makes a new widget, moves any or finds the columns of the target shared. Else
the move changes nothing, and the others share the columns. -/
theorem drop_paths_agree (h : t.WellFormed) (c : LayoutConfig) {e : DropEvent}
    (nonempty : e.dropped ≠ []) (new : ∀ n d, e = .create n d → t.contains n.id = false)
    (target : t.contains e.target.parent = true) (droppable : t.Droppable e.dropped e.target) :
    ∃ start after placed, PathsAgree c t e start after placed := by
  cases e with
  | create n d => exact ⟨_, _, _, paths_agree_create h c (new n d rfl) target droppable⟩
  | move moved d => exact ⟨_, _, _, paths_agree_move h c nonempty target droppable⟩

/-- A canvas whose only widget fills its row and does not have all columns. -/
def unshared : WidgetTree :=
  .ofList [
    { Widget.ofType mainContainerId canvasType with
      children := ["a"]
      layers := [⟨[⟨"a", .start⟩], true⟩] },
    { Widget.ofType "a" "TEXT_WIDGET" with
      parent := some mainContainerId
      sizing := .fill
      position := ⟨0, 4, 0, 16⟩ }]

/-- A drop of a widget into the first row. -/
def intoFirst (id : WidgetId) : DropEvent :=
  .move [id] ⟨mainContainerId, 0, 0, 0, .start, false, .vertical⟩

theorem drop_paths_agree_unshared :
    unshared.WellFormed ∧ unshared.Droppable ["a"] (intoFirst "a").target ∧
      ∃ after placed, (intoFirst "a").run {} .lastChild unshared = .ok after ∧
        (intoFirst "a").place {} unshared = .ok placed ∧ placed.widgets = after.widgets := by
  have wellFormed : unshared.WellFormed := by decide +kernel
  have target : unshared.contains mainContainerId = true := by decide +kernel
  have droppable : unshared.Droppable ["a"] (intoFirst "a").target := by decide +kernel
  have moves : unshared.movable ["a"] mainContainerId ≠ [] := by decide +kernel
  obtain ⟨start, after, placed, paths⟩ := drop_paths_agree wellFormed {}
    (e := intoFirst "a") (by decide) (fun _ _ other => by cases other) target droppable
  obtain rfl := Except.ok.inj paths.begin_eq
  exact ⟨wellFormed, droppable, after, placed, paths.run_eq, paths.place_eq,
    (paths.agree (.inr (.inl moves))).2⟩

/-- The drop of a widget that is not in the tree moves nothing, but it gives the other one all
columns. -/
theorem drop_paths_differ :
    unshared.WellFormed ∧ unshared.Droppable ["ghost"] (intoFirst "ghost").target ∧
      unshared.contains mainContainerId = true ∧
      ∃ after placed, (intoFirst "ghost").run {} .lastChild unshared = .ok after ∧
        (intoFirst "ghost").place {} unshared = .ok placed ∧
        after.widgets ≠ (unshared.moveTo {} ["ghost"] (intoFirst "ghost").target).widgets ∧
        placed.widgets ≠ (unshared.moveTo {} ["ghost"] (intoFirst "ghost").target).widgets := by
  exact ⟨by decide +kernel, by decide +kernel, by decide +kernel, _, _, rfl, rfl,
    by decide +kernel, by decide +kernel⟩

end Paths

end DropEvent

end AppBuilder
