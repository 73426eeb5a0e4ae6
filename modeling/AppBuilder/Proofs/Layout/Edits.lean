import AppBuilder.Proofs.Layout.Run
import AppBuilder.Proofs.Widget.Edits

/-!
Layout operations as edits of single widgets.

However much an operation looks at, what it does to a tree is a sequence of edits, one after
another (`TreeStep.editsTo_apply`).
-/

namespace AppBuilder

namespace WidgetTree

theorem editsTo_reposition (t : WidgetTree) (id : WidgetId) (f : GridPosition → GridPosition) :
    t.EditsTo (t.reposition id f) := by
  unfold reposition
  split
  · split
    · exact .refl t
    · exact .modify t id _
  · exact .refl t

/-- Setting places one after another is editing. -/
theorem EditsTo.of_shifts {t s : WidgetTree} (h : t.Shifts s) : t.EditsTo s := by
  induction h with
  | refl => exact .refl t
  | tail _ last ih =>
    obtain ⟨id, f, rfl⟩ := last
    exact ih.trans (editsTo_reposition _ id f)

section Moving

variable (c : LayoutConfig)

theorem editsTo_handOver (moved : List WidgetId) (parent : WidgetId) (s : WidgetTree × NameSet)
    (id : WidgetId) : s.1.EditsTo (handOver moved parent s id).1 := by
  obtain ⟨t, left⟩ := s
  unfold handOver
  dsimp only
  split
  · exact .refl t
  · split
    · exact .refl t
    · exact (EditsTo.modify t _ _).trans (.modify _ id _)

theorem editsTo_handOverAll (t : WidgetTree) (moved : List WidgetId) (parent : WidgetId) :
    t.EditsTo (t.handOverAll c moved parent) := by
  have handed : t.EditsTo (moved.foldl (handOver moved parent) (t, .empty)).1 :=
    .foldl Prod.fst (editsTo_handOver moved parent) moved (t, .empty)
  refine handed.trans (.foldl (fun t => t) (fun t id => ?_) _ _)
  exact .of_shifts ((shifts_shareAll c t id).trans (shifts_placeChildren c _ id))

theorem editsTo_moveTo (t : WidgetTree) (selection : List WidgetId) (d : DropTarget) :
    t.EditsTo (t.moveTo c selection d) := by
  unfold moveTo
  split
  · split
    · exact .refl t
    · exact ((editsTo_handOverAll c t _ d.parent).trans (.modify _ d.parent _)).trans
        (.of_shifts (shifts_rearrange c _ d.parent))
  · exact .refl t

theorem editsTo_leaveLayer (t : WidgetTree) (id parent : WidgetId) :
    t.EditsTo (t.leaveLayer c id parent) := by
  unfold leaveLayer
  split
  · exact .refl t
  · exact (EditsTo.modify t parent _).trans (.of_shifts (shifts_shareLayer c _ parent _))

theorem editsTo_removeOne (s : WidgetTree × NameSet) (id : WidgetId) :
    s.1.EditsTo (removeOne c s id).1 := by
  obtain ⟨t, left⟩ := s
  have doomed : ∀ (ids : List WidgetId) (t : WidgetTree), t.EditsTo (ids.foldl remove t) :=
    EditsTo.foldl (fun t => t) fun t id => .single t (.remove id)
  unfold removeOne
  dsimp only
  split
  · exact .refl t
  · split
    · exact doomed _ t
    · exact ((editsTo_leaveLayer c t id _).trans (.modify _ _ _)).trans (doomed _ _)

theorem editsTo_removeWidgets (t : WidgetTree) (ids : List WidgetId) :
    t.EditsTo (t.removeWidgets c ids) := by
  have removed : t.EditsTo (ids.foldl (removeOne c) (t, .empty)).1 :=
    .foldl Prod.fst (editsTo_removeOne c) ids (t, .empty)
  exact removed.trans (.foldl (fun t => t) (fun t id => .of_shifts (shifts_rearrange c t id)) _ _)

end Moving

section Sizing

variable (c : LayoutConfig) (t : WidgetTree)

theorem editsTo_setSizing (id : WidgetId) (sizing : Sizing) :
    t.EditsTo (t.setSizing c id sizing) := by
  unfold setSizing
  split
  · exact .refl t
  · have sized := EditsTo.modify t id fun w => { w with sizing }
    dsimp only
    split
    · exact sized
    · split
      · exact sized
      · exact (sized.trans (.modify _ _ _)).trans (.of_shifts (shifts_shareLayer c _ _ _))

theorem editsTo_wrapContainer (id : WidgetId) : t.EditsTo (t.wrapContainer c id) := by
  unfold wrapContainer
  split
  · exact .refl t
  · split
    · exact .refl t
    · exact (EditsTo.modify t _ _).trans (.of_shifts (shifts_shareAll c _ _))

theorem editsTo_unwrapContainer (id : WidgetId) : t.EditsTo (t.unwrapContainer id) := by
  unfold unwrapContainer
  split
  · exact .refl t
  · exact .modify t _ _

end Sizing

end WidgetTree

/-! ### Steps -/

/-- What can be done to a tree: an edit of one widget, or an operation on the layout. -/
inductive TreeStep where
  | edit (e : TreeEdit)
  | operation (c : LayoutConfig) (e : LayoutEdit)
  /-- Share the columns of one layer of a container. -/
  | shareLayer (c : LayoutConfig) (parent : WidgetId) (index : Nat)
  /-- Share the columns of the layer of a container that holds a widget. -/
  | shareAround (c : LayoutConfig) (parent id : WidgetId)
  /-- Take a widget out of the layers of its container. -/
  | leaveLayer (c : LayoutConfig) (id parent : WidgetId)

namespace TreeStep

open WidgetTree

def apply (t : WidgetTree) : TreeStep → WidgetTree
  | edit e => t.edit e
  | operation c e => e.apply c t
  | shareLayer c parent index => t.shareLayer c parent index
  | shareAround c parent id => t.shareAround c parent id
  | leaveLayer c id parent => t.leaveLayer c id parent

theorem editsTo_operation (c : LayoutConfig) (t : WidgetTree) (e : LayoutEdit) :
    t.EditsTo (e.apply c t) := by
  cases e with
  | move selection target => exact editsTo_moveTo c t selection target
  | remove ids => exact editsTo_removeWidgets c t ids
  | resize id sizing => exact editsTo_setSizing c t id sizing
  | wrap container => exact editsTo_wrapContainer c t container
  | unwrap container => exact editsTo_unwrapContainer t container
  | share parent => exact .of_shifts (shifts_shareAll c t parent)
  | place parent => exact .of_shifts (shifts_placeChildren c t parent)
  | mobile parent => exact .of_shifts (shifts_stretchBelow c t _ parent)
  | desktop parent => exact .of_shifts (shifts_shareBelow c t _ parent)

theorem editsTo_apply (t : WidgetTree) (x : TreeStep) : t.EditsTo (x.apply t) := by
  cases x with
  | edit e => exact .single t e
  | operation c e => exact editsTo_operation c t e
  | shareLayer c parent index => exact .of_shifts (shifts_shareLayer c t parent index)
  | shareAround c parent id => exact .of_shifts (shifts_shareAround c t parent id)
  | leaveLayer c id parent => exact editsTo_leaveLayer c t id parent

end TreeStep

end AppBuilder
