import AppBuilder.Layout.Move
import AppBuilder.Proofs.Widget.Alike

/-!
Operations that only place widgets.

Sharing columns, placing children, growing containers and arranging for a screen set the places of
widgets, one after another (`Shifts`), and do nothing else. So they change nothing but places
(`Shifts.alike`), and a well-formed tree stays one.
-/

namespace AppBuilder.WidgetTree

/-! ### Setting places one after another -/

/-- A tree comes from another one by setting the places of single widgets. -/
def Shifts : WidgetTree → WidgetTree → Prop :=
  Relation.ReflTransGen fun t s => ∃ id f, s = t.reposition id f

namespace Shifts

theorem refl (t : WidgetTree) : t.Shifts t := Relation.ReflTransGen.refl

theorem trans {t s r : WidgetTree} (h : t.Shifts s) (h' : s.Shifts r) : t.Shifts r :=
  Relation.ReflTransGen.trans h h'

theorem single (t : WidgetTree) (id : WidgetId) (f : GridPosition → GridPosition) :
    t.Shifts (t.reposition id f) :=
  Relation.ReflTransGen.single ⟨id, f, rfl⟩

/-- A loop sets places when each step does, whatever it carries along with the tree. -/
theorem foldl {σ β : Type} (tree : σ → WidgetTree) {step : σ → β → σ}
    (each : ∀ s b, (tree s).Shifts (tree (step s b))) (bs : List β) (s : σ) :
    (tree s).Shifts (tree (bs.foldl step s)) := by
  induction bs generalizing s with
  | nil => exact .refl _
  | cons b bs ih => exact (each s b).trans (ih (step s b))

end Shifts

theorem alike_reposition (t : WidgetTree) (id : WidgetId) (f : GridPosition → GridPosition) :
    t.Alike (t.reposition id f) := by
  intro id'
  unfold reposition
  split
  · split
    · rfl
    · rw [get?_modify]
      split
      · rw [Option.map_map]
        rfl
      · rfl
  · rfl

/-- Setting places changes nothing but places. -/
theorem Shifts.alike {t s : WidgetTree} (h : t.Shifts s) : t.Alike s := by
  induction h with
  | refl => exact .refl t
  | tail _ last ih =>
    obtain ⟨id, f, rfl⟩ := last
    exact ih.trans (alike_reposition _ id f)

theorem alike_foldl_tree {β : Type} {f : WidgetTree → β → WidgetTree}
    (step : ∀ (t : WidgetTree) b, t.Alike (f t b)) (bs : List β) (t : WidgetTree) :
    t.Alike (bs.foldl f t) := by
  induction bs generalizing t with
  | nil => exact .refl t
  | cons b bs ih => exact (step t b).trans (ih (f t b))

/-! ### Operations that set places -/

section Operations

variable (c : LayoutConfig) (t : WidgetTree)

theorem shifts_shareColumns (l : FlexLayer) : t.Shifts (t.shareColumns c l) := by
  unfold shareColumns
  split
  · exact .foldl (fun t => t) (fun t id => .single t id _) _ t
  · exact .refl t

theorem shifts_shareLayer (parent : WidgetId) (index : Nat) :
    t.Shifts (t.shareLayer c parent index) := by
  unfold shareLayer
  split
  · exact shifts_shareColumns c t _
  · exact .refl t

theorem shifts_shareAll (parent : WidgetId) : t.Shifts (t.shareAll c parent) :=
  .foldl (fun t => t) (fun t i => shifts_shareLayer c t parent i) _ t

theorem shifts_shareAround (parent id : WidgetId) : t.Shifts (t.shareAround c parent id) := by
  unfold shareAround
  split
  · exact shifts_shareLayer c t parent _
  · exact .refl t

theorem shifts_placeRows (ids : List WidgetId) (top : Int) : t.Shifts (t.placeRows ids top).1 := by
  refine .foldl Prod.fst (fun s id => ?_) _ (t, 0)
  dsimp only
  exact .single s.1 id _

theorem shifts_packColumns (ids : List WidgetId) (left : Int) :
    t.Shifts (t.packColumns ids left) := by
  refine .foldl Prod.fst (fun s id => ?_) _ (t, left)
  dsimp only
  exact .single s.1 id _

theorem shifts_placeBuckets (b : Buckets) : t.Shifts (t.placeBuckets c b) :=
  ((shifts_packColumns t _ _).trans (shifts_packColumns _ _ _)).trans (shifts_packColumns _ _ _)

theorem shifts_placeChildren (parent : WidgetId) : t.Shifts (t.placeChildren c parent).1 := by
  have step : ∀ (s : WidgetTree × Int) (l : FlexLayer),
      s.1.Shifts ((s.1.placeRows l.ids s.2).1.placeBuckets c l.spread) := fun s l =>
    (shifts_placeRows s.1 l.ids s.2).trans (shifts_placeBuckets c _ l.spread)
  unfold placeChildren
  split
  · refine .foldl Prod.fst (fun s l => ?_) _ (t, c.containerPadding)
    exact step s l
  · exact .refl t

theorem shifts_growContainer (canvas : WidgetId) (height : Int) :
    t.Shifts (t.growContainer canvas height) := by
  unfold growContainer
  split
  · exact .refl t
  · split
    · split
      · exact .single t _ _
      · exact .refl t
    · exact .refl t

theorem shifts_rearrange (parent : WidgetId) : t.Shifts (t.rearrange c parent) :=
  ((shifts_shareAll c t parent).trans (shifts_placeChildren c _ parent)).trans
    (shifts_growContainer _ parent _)

theorem shifts_stretchBelow (depth : Nat) (parent : WidgetId) :
    t.Shifts (stretchBelow c depth t parent) := by
  induction depth generalizing t parent with
  | zero => exact .refl t
  | succ depth ih =>
    refine .foldl (fun t => t) (fun t child => ?_) _ t
    dsimp only
    split
    · exact (ih t child).trans (.single _ child _)
    · exact ih t child

theorem shifts_shareBelow (depth : Nat) (parent : WidgetId) :
    t.Shifts (shareBelow c depth t parent) := by
  induction depth generalizing t parent with
  | zero => exact .refl t
  | succ depth ih =>
    unfold shareBelow
    split
    · exact .refl t
    · exact (shifts_shareAll c t parent).trans (.foldl (fun t => t) ih _ _)

end Operations

/-! ### What they leave alone -/

section Alike

variable (c : LayoutConfig) (t : WidgetTree)

theorem alike_shareColumns (l : FlexLayer) : t.Alike (t.shareColumns c l) :=
  (shifts_shareColumns c t l).alike

theorem alike_shareLayer (parent : WidgetId) (index : Nat) :
    t.Alike (t.shareLayer c parent index) :=
  (shifts_shareLayer c t parent index).alike

theorem alike_shareAll (parent : WidgetId) : t.Alike (t.shareAll c parent) :=
  (shifts_shareAll c t parent).alike

theorem alike_placeRows (ids : List WidgetId) (top : Int) : t.Alike (t.placeRows ids top).1 :=
  (shifts_placeRows t ids top).alike

theorem alike_packColumns (ids : List WidgetId) (left : Int) : t.Alike (t.packColumns ids left) :=
  (shifts_packColumns t ids left).alike

theorem alike_placeChildren (parent : WidgetId) : t.Alike (t.placeChildren c parent).1 :=
  (shifts_placeChildren c t parent).alike

theorem alike_growContainer (canvas : WidgetId) (height : Int) :
    t.Alike (t.growContainer canvas height) :=
  (shifts_growContainer t canvas height).alike

theorem alike_rearrange (parent : WidgetId) : t.Alike (t.rearrange c parent) :=
  (shifts_rearrange c t parent).alike

theorem alike_stretchBelow (depth : Nat) (parent : WidgetId) :
    t.Alike (stretchBelow c depth t parent) :=
  (shifts_stretchBelow c t depth parent).alike

theorem alike_shareBelow (depth : Nat) (parent : WidgetId) :
    t.Alike (shareBelow c depth t parent) :=
  (shifts_shareBelow c t depth parent).alike

end Alike

end AppBuilder.WidgetTree
