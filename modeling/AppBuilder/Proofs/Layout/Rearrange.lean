import AppBuilder.Proofs.Layout.Extent
import AppBuilder.Proofs.Layout.Move

/-!
Containers that a move lays out again.

A move shares and places the children of every container it takes widgets from, and of the
target. All other containers are undisturbed (`Undisturbed`). So what laying a container out
brings about, and what only its layers, the sizing and the places of widgets decide, holds of every
container after the move when it held before (`WellFormed.moveTo_relaid`).
-/

namespace AppBuilder.WidgetTree

/-- Share the columns of a container and place its children. -/
def layOut (c : LayoutConfig) (t : WidgetTree) (parent : WidgetId) : WidgetTree :=
  ((t.shareAll c parent).placeChildren c parent).1

theorem alike_layOut (c : LayoutConfig) (t : WidgetTree) (parent : WidgetId) :
    t.Alike (t.layOut c parent) :=
  (alike_shareAll c t parent).trans (alike_placeChildren c _ parent)

theorem rearrange_eq (c : LayoutConfig) (t : WidgetTree) (parent : WidgetId) :
    t.rearrange c parent = (t.layOut c parent).growContainer parent
      ((t.shareAll c parent).placeChildren c parent).2 := rfl

/-! ### The container around a canvas -/

/-- A bordered container that a canvas lies in. -/
def IsFrame (t : WidgetTree) (canvas frame : WidgetId) : Prop :=
  t.Up canvas frame ∧ ∃ w, t.get? frame = some w ∧ w.type = containerType ∧ w.id ≠ mainContainerId

/-- Growing sets the lower edge of the container around a canvas, if there is one. -/
theorem placeOf?_growContainer (t : WidgetTree) (canvas : WidgetId) (height : Int)
    (x : WidgetId) : (t.growContainer canvas height).placeOf? x = t.placeOf? x ∨
      t.IsFrame canvas x ∧ (t.growContainer canvas height).placeOf? x =
        (t.placeOf? x).map fun p => { p with bottomRow := p.topRow + height } := by
  unfold growContainer
  split
  · exact .inl rfl
  · rename_i frame up
    split
    · rename_i w hw
      split
      · rename_i bordered
        rw [placeOf?_reposition]
        by_cases own : frame = x
        · subst own
          exact .inr ⟨⟨up, w, hw, bordered⟩, if_pos rfl⟩
        · exact .inl (if_neg own)
      · exact .inl rfl
    · exact .inl rfl

/-! ### Undisturbed containers -/

/-- A container keeps its layers, and all widgets their sizing and places. -/
structure Undisturbed (t : WidgetTree) (id : WidgetId) (s : WidgetTree) : Prop where
  layersOf_eq : s.layersOf id = t.layersOf id
  isFill_eq : ∀ x, s.isFill x = t.isFill x
  placeOf?_eq : ∀ x, s.placeOf? x = t.placeOf? x

section Handing

variable {t : WidgetTree} {moved : List WidgetId} {parent : WidgetId}

theorem placeOf?_handOver (s : WidgetTree × NameSet) (m x : WidgetId) :
    (handOver moved parent s m).1.placeOf? x = s.1.placeOf? x := by
  obtain ⟨t, left⟩ := s
  unfold handOver
  dsimp only
  split
  · rfl
  · split
    · rfl
    · rw [placeOf?_modify_of_same, dropChildren, placeOf?_modify_of_same]
      · exact fun _ => rfl
      · exact fun _ => rfl

theorem placeOf?_foldl_handOver (ms : List WidgetId) (s : WidgetTree × NameSet) (x : WidgetId) :
    (ms.foldl (handOver moved parent) s).1.placeOf? x = s.1.placeOf? x := by
  induction ms generalizing s with
  | nil => rfl
  | cons m ms ih => rw [List.foldl_cons, ih, placeOf?_handOver]

/-- Containers that no widget leaves are undisturbed. -/
theorem Handed.undisturbed {done : List WidgetId} {s : WidgetTree}
    (handed : Handed t moved parent done s) (places : ∀ x, s.placeOf? x = t.placeOf? x)
    {id : WidgetId} (kept : id = parent ∨ ∀ m ∈ done, ¬ t.Up m id) : t.Undisturbed id s :=
  ⟨handed.layersOf_kept id kept, handed.isFill_eq, places⟩

theorem placeOf?_settle (s : WidgetTree) (moved : List WidgetId) (d : DropTarget) (x : WidgetId) :
    (s.settle moved d).placeOf? x = s.placeOf? x := by
  rw [settle, placeOf?_modify_of_same]
  exact fun _ => rfl

/-- Settling in disturbs the target only. -/
theorem undisturbed_settle (s : WidgetTree) (moved : List WidgetId) {d : DropTarget}
    {id : WidgetId} (other : id ≠ d.parent) : s.Undisturbed id (s.settle moved d) where
  layersOf_eq := by rw [layersOf, settle, get?_modify, if_neg (Ne.symm other), ← layersOf]
  isFill_eq x := by
    rw [settle, isFill_modify]
    exact fun _ => rfl
  placeOf?_eq := placeOf?_settle s moved d

end Handing

/-! ### Laying out again -/

section Relaying

variable {c : LayoutConfig} {P : WidgetTree → Prop} {id : WidgetId}

/-- A loop over containers brings about what a step brings about in its own container and keeps in
the others. -/
theorem foldl_relaid {f : WidgetTree → WidgetId → WidgetTree}
    (alike : ∀ (t : WidgetTree) parent, t.Alike (f t parent))
    (step : ∀ (t : WidgetTree) parent, t.Tidy → (id ≠ parent → P t) → P (f t parent))
    (parents : List WidgetId) (t : WidgetTree) (tidy : t.Tidy) (others : id ∉ parents → P t) :
    P (parents.foldl f t) := by
  induction parents generalizing t with
  | nil => exact others List.not_mem_nil
  | cons parent parents ih =>
    refine ih _ (tidy.congr (alike t parent)) fun later => step t parent tidy fun other => ?_
    exact others fun mem => (List.mem_cons.mp mem).elim other later

variable {t : WidgetTree} {moved : List WidgetId}
  (keeps : ∀ {t s : WidgetTree}, t.Undisturbed id s → P t → P s)
  (step : ∀ (t : WidgetTree) parent, t.Tidy → (id ≠ parent → P t) → P (t.layOut c parent))
include keeps step

theorem WellFormed.handOverAll_relaid (h : t.WellFormed) (before : P t) (nodup : moved.Nodup)
    (up : ∀ m ∈ moved, ∃ before, t.Up m before) (parent : WidgetId) :
    P (t.handOverAll c moved parent) := by
  have start := handed_nil t moved parent
  have handed := Handed.foldl h.linked (s := (t, .empty)) start nodup up
  have left := start.mem_left h.linked (s := (t, .empty)) nodup up (by simp)
  have places : ∀ x, (moved.foldl (handOver moved parent) (t, .empty)).1.placeOf? x =
      t.placeOf? x := placeOf?_foldl_handOver moved (t, .empty)
  rw [List.nil_append] at handed left
  rw [handOverAll]
  generalize moved.foldl (handOver moved parent) (t, .empty) = s at *
  refine foldl_relaid (f := fun t id => t.layOut c id) (alike_layOut c) step s.2.toList s.1
    (handed.tidy h) fun apart => ?_
  refine keeps (handed.undisturbed places ?_) before
  by_cases target : id = parent
  · exact .inl target
  · exact .inr fun m hm hup => apart (left m hm id hup target)

/-- A move that changes a tree ends by growing the container around the target. Until then all
containers keep what laying them out brings about. -/
theorem WellFormed.moveTo_relaid (h : t.WellFormed) (before : P t) {d : DropTarget}
    (fits : t.Fits moved d) :
    P (((t.handOverAll c moved d.parent).settle moved d).layOut c d.parent) := by
  have up := fits.exists_up h.rooted
  have handed := handed_handOverAll h.linked c fits.nodup up d.parent
  refine step _ d.parent (h.settle handed fits).tidy fun other => ?_
  exact keeps (undisturbed_settle _ moved other)
    (h.handOverAll_relaid keeps step before fits.nodup up d.parent)

end Relaying

end AppBuilder.WidgetTree
