import AppBuilder.Proofs.Layout.Move
import AppBuilder.Proofs.Layout.Remove
import AppBuilder.Proofs.Layout.Sizing

/-!
Runs of layout operations.

Each operation keeps a well-formed tree well formed if its target allows it (`apply_wellFormed`),
and so does every run of them (`wellFormed_of_run`).
-/

namespace AppBuilder

/-- An operation on the layout of a tree. -/
inductive LayoutEdit where
  /-- Move widgets to a target. -/
  | move (selection : List WidgetId) (target : DropTarget)
  /-- Remove widgets with all that is below them. -/
  | remove (ids : List WidgetId)
  /-- Make a widget fill its row or hug its content. -/
  | resize (id : WidgetId) (sizing : Sizing)
  /-- Give the canvas of a container layers. -/
  | wrap (container : WidgetId)
  /-- Take the layers of the canvas of a container away. -/
  | unwrap (container : WidgetId)
  /-- Share the columns of a container. -/
  | share (parent : WidgetId)
  /-- Place the children of a container. -/
  | place (parent : WidgetId)
  /-- Arrange a container for a narrow screen. -/
  | mobile (parent : WidgetId)
  /-- Arrange a container for a wide screen. -/
  | desktop (parent : WidgetId)

namespace LayoutEdit

open WidgetTree

def apply (c : LayoutConfig) (t : WidgetTree) : LayoutEdit → WidgetTree
  | move selection target => t.moveTo c selection target
  | remove ids => t.removeWidgets c ids
  | resize id sizing => t.setSizing c id sizing
  | wrap container => t.wrapContainer c container
  | unwrap container => t.unwrapContainer container
  | share parent => t.shareAll c parent
  | place parent => (t.placeChildren c parent).1
  | mobile parent => t.arrangeMobile c parent
  | desktop parent => t.arrangeDesktop c parent

/-- What an operation asks of a tree: a move needs a target that it can drop into, the root is
not removed, and only canvases are wrapped. -/
def Allowed (t : WidgetTree) : LayoutEdit → Prop
  | move selection target => t.Droppable selection target
  | remove ids => ∀ id ∈ ids, t.contains id = true → t.parentOf? id ≠ none
  | wrap container => ∀ owner ∈ t.canvasOf? container, t.IsCanvas owner
  | _ => True

/-- A run of operations, each allowed when its turn comes. -/
def AllowedRun (c : LayoutConfig) : WidgetTree → List LayoutEdit → Prop
  | _, [] => True
  | t, e :: es => e.Allowed t ∧ AllowedRun c (e.apply c t) es

instance decidableAllowed (t : WidgetTree) : (e : LayoutEdit) → Decidable (e.Allowed t)
  | move selection target => inferInstanceAs (Decidable (t.Droppable selection target))
  | remove ids =>
    inferInstanceAs (Decidable (∀ id ∈ ids, t.contains id = true → t.parentOf? id ≠ none))
  | wrap container =>
    inferInstanceAs (Decidable (∀ owner ∈ t.canvasOf? container, t.IsCanvas owner))
  | resize _ _ | unwrap _ | share _ | place _ | mobile _ | desktop _ =>
    inferInstanceAs (Decidable True)

instance decidableAllowedRun (c : LayoutConfig) :
    (t : WidgetTree) → (es : List LayoutEdit) → Decidable (AllowedRun c t es)
  | _, [] => inferInstanceAs (Decidable True)
  | t, e :: es =>
    have := decidableAllowedRun c (e.apply c t) es
    inferInstanceAs (Decidable (_ ∧ _))

/-- An allowed operation keeps a tree well formed. -/
theorem apply_wellFormed {t : WidgetTree} (h : t.WellFormed) (c : LayoutConfig) {e : LayoutEdit}
    (allowed : e.Allowed t) : (e.apply c t).WellFormed := by
  cases e with
  | move selection target => exact h.moveTo c allowed
  | remove ids => exact h.removeWidgets c allowed
  | resize id sizing => exact h.setSizing c id sizing
  | wrap container => exact h.wrapContainer c allowed
  | unwrap container => exact h.unwrapContainer container
  | share parent => exact h.congr (alike_shareAll c t parent)
  | place parent => exact h.congr (alike_placeChildren c t parent)
  | mobile parent => exact h.congr (alike_stretchBelow c t _ parent)
  | desktop parent => exact h.congr (alike_shareBelow c t _ parent)

/-- Every run of allowed operations leads from a well-formed tree to a well-formed one, in which
no widget is above itself. -/
theorem wellFormed_of_run (c : LayoutConfig) {t : WidgetTree} (h : t.WellFormed)
    {es : List LayoutEdit} (run : AllowedRun c t es) :
    (es.foldl (apply c) t).WellFormed ∧
      ∀ id, ¬ Relation.TransGen (es.foldl (apply c) t).Up id id := by
  induction es generalizing t with
  | nil => exact ⟨h, h.rooted.not_up_self⟩
  | cons e es ih => exact ih (apply_wellFormed h c run.1) run.2

/-- A root canvas with a canvas and a text in it, each in a layer of its own. -/
def twoCanvases : WidgetTree :=
  .ofList [
    { Widget.ofType mainContainerId canvasType with
      children := ["canvas", "text"]
      layers := [⟨[⟨"canvas", .start⟩], false⟩, ⟨[⟨"text", .center⟩], false⟩] },
    { Widget.ofType "canvas" canvasType with parent := some mainContainerId },
    { Widget.ofType "text" "TEXT_WIDGET" with parent := some mainContainerId }]

/-- The text goes into the inner canvas and fills it, the outer one loses its layers and gets them
back, and the inner one is removed. -/
def regroup : List LayoutEdit :=
  [.move ["text"] ⟨"canvas", 0, 0, 0, .start, true, .vertical⟩, .resize "text" .fill,
    .unwrap mainContainerId, .wrap mainContainerId, .remove ["canvas"]]

theorem wellFormed_of_run_regroup :
    twoCanvases.WellFormed ∧ AllowedRun {} twoCanvases regroup ∧
      (regroup.foldl (apply {}) twoCanvases).WellFormed ∧
      ∀ id, ¬ Relation.TransGen (regroup.foldl (apply {}) twoCanvases).Up id id := by
  have start : twoCanvases.WellFormed := by decide +kernel
  have run : AllowedRun {} twoCanvases regroup := by decide +kernel
  exact ⟨start, run, wellFormed_of_run {} start run⟩

end LayoutEdit

end AppBuilder
