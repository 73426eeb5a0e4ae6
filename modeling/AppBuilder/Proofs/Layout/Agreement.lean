import AppBuilder.Proofs.Layout.Columns

/-!
Trees that agree but for some right edges.

Sharing the columns of a container sets the right edges of its filling widgets from their left
edges and from the widths of the others. So two trees that differ in such edges only agree about
a container once it is laid out (`AgreesBut.rearrange_tidy`), and about all of them once each is
(`AgreesBut.foldl_rearrange`). Trees that differ nowhere (`Agrees`) stay so.
-/

namespace AppBuilder

/-- A place without its right edge. -/
def GridPosition.edgeless (p : GridPosition) : GridPosition := { p with rightColumn := 0 }

namespace WidgetTree

/-! ### Agreement -/

/-- Two trees that hold the same widgets, but for the right edges of some. -/
structure AgreesBut (X : WidgetId → Prop) (t s : WidgetTree) : Prop where
  alike : t.Alike s
  placeOf?_eq : ∀ id, ¬ X id → t.placeOf? id = s.placeOf? id
  edgeless_eq : ∀ id,
    (t.placeOf? id).map GridPosition.edgeless = (s.placeOf? id).map GridPosition.edgeless

namespace AgreesBut

variable {X Y : WidgetId → Prop} {t s : WidgetTree}

theorem mono (h : AgreesBut X t s) (sub : ∀ id, X id → Y id) : AgreesBut Y t s :=
  { h with placeOf?_eq := fun id hid => h.placeOf?_eq id fun hx => hid (sub id hx) }

theorem rowsOf_eq (h : AgreesBut X t s) (id : WidgetId) : t.rowsOf id = s.rowsOf id := by
  have same := congrArg (Option.map fun p => max p.rows 0) (h.edgeless_eq id)
  rw [Option.map_map, Option.map_map] at same
  rw [WidgetTree.rowsOf_eq, WidgetTree.rowsOf_eq]
  exact congrArg (Option.getD · 0) same

theorem columnsOf_eq (h : AgreesBut X t s) {id : WidgetId} (hid : ¬ X id) :
    t.columnsOf id = s.columnsOf id := by
  rw [WidgetTree.columnsOf_eq, WidgetTree.columnsOf_eq, widthOf_congr (h.placeOf?_eq id hid)]

theorem columnSum_eq (h : AgreesBut X t s) {ids : List WidgetId} (apart : ∀ id ∈ ids, ¬ X id) :
    t.columnSum ids = s.columnSum ids :=
  columnSum_congr fun id hid => h.columnsOf_eq (apart id hid)

/-- Placing a widget alike, whatever its right edge is. -/
theorem reposition (h : AgreesBut X t s) (id : WidgetId) {f : GridPosition → GridPosition}
    (keeps : ∀ p, (f p.edgeless).edgeless = (f p).edgeless) :
    AgreesBut X (t.reposition id f) (s.reposition id f) where
  alike := ((alike_reposition t id f).symm.trans h.alike).trans (alike_reposition s id f)
  placeOf?_eq x hx := by rw [placeOf?_reposition, placeOf?_reposition, h.placeOf?_eq x hx]
  edgeless_eq x := by
    have same := congrArg (Option.map fun p => (f p).edgeless) (h.edgeless_eq x)
    simp only [Option.map_map, Function.comp_def, keeps] at same
    rw [placeOf?_reposition, placeOf?_reposition]
    split
    · simpa only [Option.map_map, Function.comp_def] using same
    · exact h.edgeless_eq x

/-- Setting the right edge of a widget from the rest of its place settles it. -/
theorem settle (h : AgreesBut X t s) (id : WidgetId) {f : GridPosition → GridPosition}
    (sets : ∀ p, f p.edgeless = f p) :
    AgreesBut (fun x => X x ∧ x ≠ id) (t.reposition id f) (s.reposition id f) := by
  have placed := h.reposition id fun p => congrArg GridPosition.edgeless (sets p)
  refine { placed with placeOf?_eq := fun x hx => ?_ }
  by_cases own : id = x
  · have same := congrArg (Option.map f) (h.edgeless_eq x)
    simp only [Option.map_map, Function.comp_def, sets] at same
    rw [placeOf?_reposition, placeOf?_reposition, if_pos own, if_pos own]
    exact same
  · exact placed.placeOf?_eq x fun hx' => hx ⟨hx', Ne.symm own⟩

/-! ### Loops -/

/-- A loop that settles some widgets. -/
theorem foldl_settle (h : AgreesBut X t s) (ids : List WidgetId)
    {f : GridPosition → GridPosition} (sets : ∀ p, f p.edgeless = f p) :
    AgreesBut (fun x => X x ∧ x ∉ ids) (ids.foldl (fun t id => t.reposition id f) t)
      (ids.foldl (fun t id => t.reposition id f) s) := by
  induction ids generalizing X t s with
  | nil => exact h.mono fun x hx => ⟨hx, List.not_mem_nil⟩
  | cons id ids ih =>
    refine (ih (h.settle id sets)).mono ?_
    rintro x ⟨⟨hx, other⟩, rest⟩
    exact ⟨hx, fun mem => (List.mem_cons.mp mem).elim other rest⟩

/-- A loop whose steps keep trees in agreement, also about a number that they carry along. -/
theorem foldl_pair {β : Type} {f : WidgetTree × Int → β → WidgetTree × Int} {bs : List β}
    (step : ∀ {t s : WidgetTree} (n : Int), ∀ b ∈ bs, AgreesBut X t s →
      AgreesBut X (f (t, n) b).1 (f (s, n) b).1 ∧ (f (t, n) b).2 = (f (s, n) b).2)
    (h : AgreesBut X t s) (n : Int) : AgreesBut X (bs.foldl f (t, n)).1 (bs.foldl f (s, n)).1 ∧
      (bs.foldl f (t, n)).2 = (bs.foldl f (s, n)).2 := by
  induction bs generalizing t s n with
  | nil => exact ⟨h, rfl⟩
  | cons b bs ih =>
    obtain ⟨next, same⟩ := step n b List.mem_cons_self h
    have rest := ih (fun n b hb => step n b (List.mem_cons_of_mem _ hb)) next (f (t, n) b).2
    rw [List.foldl_cons, List.foldl_cons]
    exact Prod.eta (f (s, n) b) ▸ same ▸ rest

/-! ### Sharing -/

variable (c : LayoutConfig)

/-- Sharing a layer settles its widgets, if only filling ones are unsettled. -/
theorem shareColumns (h : AgreesBut X t s) {l : FlexLayer}
    (filling : ∀ id ∈ l.ids, X id → t.isFill id = true ∧ l.hasFill = true) :
    AgreesBut (fun x => X x ∧ x ∉ l.ids) (t.shareColumns c l) (s.shareColumns c l) := by
  have fill := h.alike.isFill_eq
  have share : fillShare c t l.ids = fillShare c s l.ids := by
    refine fillShare_congr (fun id _ => fill id) fun id hid hug => h.columnsOf_eq fun hx => ?_
    rw [← fill, (filling id hid hx).1] at hug
    cases hug
  unfold WidgetTree.shareColumns
  by_cases filled : l.hasFill = true
  · rw [if_pos filled, if_pos filled, share, List.filter_congr fun id _ => fill id]
    refine (h.foldl_settle _ fun p => rfl).mono ?_
    rintro x ⟨hx, rest⟩
    refine ⟨hx, fun mem => rest (List.mem_filter.mpr ⟨mem, ?_⟩)⟩
    rw [← fill]
    exact (filling x mem hx).1
  · rw [if_neg filled, if_neg filled]
    exact h.mono fun x hx => ⟨hx, fun mem => filled (filling x mem hx).2⟩

theorem foldl_shareColumns (h : AgreesBut X t s) {layers : List FlexLayer}
    (filling : ∀ l ∈ layers, ∀ id ∈ l.ids, X id → t.isFill id = true ∧ l.hasFill = true) :
    AgreesBut (fun x => X x ∧ x ∉ Layers.flatten layers)
      (layers.foldl (fun t l => t.shareColumns c l) t)
      (layers.foldl (fun t l => t.shareColumns c l) s) := by
  induction layers generalizing X t s with
  | nil => exact h.mono fun x hx => ⟨hx, List.not_mem_nil⟩
  | cons l layers ih =>
    obtain ⟨own, rest⟩ := List.forall_mem_cons.mp filling
    refine (ih (h.shareColumns c own) fun l' hl' id hid hx => ?_).mono ?_
    · rw [← (alike_shareColumns c t l).isFill_eq]
      exact rest l' hl' id hid hx.1
    · rintro x ⟨⟨hx, first⟩, others⟩
      exact ⟨hx, fun mem => (List.mem_append.mp mem).elim first others⟩

/-! ### Placing -/

theorem placeRows (h : AgreesBut X t s) (ids : List WidgetId) (top : Int) :
    AgreesBut X (t.placeRows ids top).1 (s.placeRows ids top).1 ∧
      (t.placeRows ids top).2 = (s.placeRows ids top).2 := by
  rw [placeRows_eq, placeRows_eq, funext h.alike.kin.contains_eq]
  refine foldl_pair (fun height id _ h => ?_) h 0
  dsimp only [placeRow]
  rw [h.rowsOf_eq]
  exact ⟨h.reposition id fun p => rfl, rfl⟩

theorem packColumns (h : AgreesBut X t s) {ids : List WidgetId} (apart : ∀ id ∈ ids, ¬ X id)
    (left : Int) : AgreesBut X (t.packColumns ids left) (s.packColumns ids left) := by
  have known : t.contains = s.contains := funext h.alike.kin.contains_eq
  rw [WidgetTree.packColumns, WidgetTree.packColumns, known]
  refine (foldl_pair (fun left id mem h => ?_) h left).1
  dsimp only
  rw [h.columnsOf_eq (apart id (List.mem_filter.mp mem).1)]
  exact ⟨h.reposition id fun p => rfl, rfl⟩

theorem placeBuckets (h : AgreesBut X t s) {b : Buckets} (apart : ∀ id ∈ b.ids, ¬ X id) :
    AgreesBut X (t.placeBuckets c b) (s.placeBuckets c b) := by
  have start : ∀ id ∈ b.start, ¬ X id := fun id mem => apart id (by simp [Buckets.ids, mem])
  have center : ∀ id ∈ b.center, ¬ X id := fun id mem => apart id (by simp [Buckets.ids, mem])
  have finish : ∀ id ∈ b.finish, ¬ X id := fun id mem => apart id (by simp [Buckets.ids, mem])
  unfold WidgetTree.placeBuckets
  rw [h.columnSum_eq center, h.columnSum_eq finish]
  exact ((h.packColumns start _).packColumns center _).packColumns finish _

theorem placeChildren (h : AgreesBut X t s) (parent : WidgetId)
    (apart : ∀ id ∈ Layers.flatten (t.effectiveLayers parent), ¬ X id) :
    AgreesBut X (t.placeChildren c parent).1 (s.placeChildren c parent).1 ∧
      (t.placeChildren c parent).2 = (s.placeChildren c parent).2 := by
  by_cases there : t.contains parent = true
  · have there' : s.contains parent = true := h.alike.kin.contains_eq parent ▸ there
    rw [placeChildren_eq c there, placeChildren_eq c there', ← h.alike.effectiveLayers_eq]
    refine foldl_pair (fun top l hl h => ?_) h _
    obtain ⟨next, height⟩ := h.placeRows l.ids top
    refine ⟨next.placeBuckets c fun id hid => apart id ?_, congrArg (top + ·) height⟩
    exact List.mem_flatMap.mpr ⟨l, (List.mem_filter.mp hl).1, l.perm_ids_spread.mem_iff.mp hid⟩
  · have missing : ¬ s.contains parent = true := h.alike.kin.contains_eq parent ▸ there
    rw [WidgetTree.placeChildren, WidgetTree.placeChildren, if_neg there, if_neg missing]
    exact ⟨h, rfl⟩

theorem growContainer (h : AgreesBut X t s) (canvas : WidgetId) (height : Int) :
    AgreesBut X (t.growContainer canvas height) (s.growContainer canvas height) := by
  unfold WidgetTree.growContainer
  rw [h.alike.parentOf?_eq]
  cases s.parentOf? canvas with
  | none => exact h
  | some outer =>
    have kind := h.alike.kin outer
    dsimp only
    cases hw : t.get? outer with
    | none =>
      rw [hw, Option.map_none, eq_comm, Option.map_eq_none_iff] at kind
      rw [kind]
      exact h
    | some w =>
      rw [hw, Option.map_some, eq_comm, Option.map_eq_some_iff] at kind
      obtain ⟨w', hw', same⟩ := kind
      obtain ⟨id, type⟩ := Prod.mk.inj same
      rw [hw']
      dsimp only
      rw [id, type]
      split
      · exact h.reposition outer fun p => rfl
      · exact h

/-- Laying a container out settles the widgets in its layers. -/
theorem rearrange (h : AgreesBut X t s) (parent : WidgetId)
    (filling : ∀ l ∈ t.layersOf parent, ∀ id ∈ l.ids, X id →
      t.isFill id = true ∧ l.hasFill = true)
    (layered : ∀ id ∈ Layers.flatten (t.effectiveLayers parent), X id →
      id ∈ Layers.flatten (t.layersOf parent)) :
    AgreesBut (fun x => X x ∧ x ∉ Layers.flatten (t.layersOf parent)) (t.rearrange c parent)
      (s.rearrange c parent) := by
  have shared : AgreesBut (fun x => X x ∧ x ∉ Layers.flatten (t.layersOf parent))
      (t.shareAll c parent) (s.shareAll c parent) := by
    rw [shareAll_eq, shareAll_eq, ← h.alike.layersOf_eq]
    exact h.foldl_shareColumns c filling
  obtain ⟨placed, height⟩ := shared.placeChildren c parent fun id hid hx => by
    rw [← (alike_shareAll c t parent).effectiveLayers_eq] at hid
    exact hx.2 (layered id hid hx.1)
  unfold WidgetTree.rearrange
  dsimp only
  rw [height]
  exact placed.growContainer parent _

/-- The same when only filling widgets in layers are unsettled. -/
theorem rearrange_tidy (h : AgreesBut X t s) (tidy : t.Tidy)
    (filling : ∀ x, X x → t.isFill x = true ∧ ∃ p, x ∈ Layers.flatten (t.layersOf p))
    (parent : WidgetId) : AgreesBut (fun x => X x ∧ x ∉ Layers.flatten (t.layersOf parent))
      (t.rearrange c parent) (s.rearrange c parent) := by
  refine h.rearrange c parent (fun l hl id hid hx => ?_) fun id hid hx => ?_
  · obtain ⟨child, mem, rfl⟩ := List.mem_map.mp hid
    have fill := (filling child.id hx).1
    refine ⟨fill, ?_⟩
    rw [← tidy.flagged hl, fills, List.any_eq_true]
    exact ⟨child, mem, fill⟩
  · obtain ⟨p, mem⟩ := (filling id hx).2
    obtain rfl := tidy.sole p parent id (tidy.mem_childrenOf mem) (tidy.mem_effectiveLayers hid)
    exact mem

end AgreesBut

/-! ### Full agreement -/

/-- Two trees that hold the same widgets; when these were written makes no difference. -/
def Agrees (t s : WidgetTree) : Prop := ∀ id, t.get? id = s.get? id

namespace Agrees

variable {t s : WidgetTree} (h : t.Agrees s)
include h

theorem widgets_eq : t.widgets = s.widgets := by
  refine Dict.ext_get? fun id => ?_
  rw [widgets, widgets, Dict.get?_map, Dict.get?_map]
  exact h id

theorem agreesBut (X : WidgetId → Prop) : AgreesBut X t s where
  alike id := by rw [h id]
  placeOf?_eq id _ := by rw [placeOf?, placeOf?, h id]
  edgeless_eq id := by rw [placeOf?, placeOf?, h id]

/-- Laying a container out looks at widgets only. -/
theorem rearrange (c : LayoutConfig) (parent : WidgetId) :
    (t.rearrange c parent).Agrees (s.rearrange c parent) := by
  have settled := (h.agreesBut fun _ => False).rearrange c parent
    (fun _ _ _ _ never => never.elim) fun _ _ never => never.elim
  exact fun id => settled.alike.get?_eq (settled.placeOf?_eq id fun never => never.1)

end Agrees

/-- Trees that agree but for right edges of filling widgets in the layers of some containers hold
the same widgets once all of these are laid out. -/
theorem AgreesBut.foldl_rearrange (c : LayoutConfig) {X : WidgetId → Prop} {t s : WidgetTree}
    (h : AgreesBut X t s) (tidy : t.Tidy) {parents : List WidgetId}
    (filling : ∀ x, X x → t.isFill x = true ∧
      ∃ p ∈ parents, x ∈ Layers.flatten (t.layersOf p)) :
    (parents.foldl (WidgetTree.rearrange c) t).Agrees
      (parents.foldl (WidgetTree.rearrange c) s) := by
  induction parents generalizing X t s with
  | nil =>
    refine fun id => h.alike.get?_eq (h.placeOf?_eq id fun hx => ?_)
    obtain ⟨-, p, never, -⟩ := filling id hx
    exact List.not_mem_nil never
  | cons parent parents ih =>
    have alike := alike_rearrange c t parent
    refine ih (h.rearrange_tidy c tidy (fun x hx => ?_) parent) (tidy.congr alike) ?_
    · obtain ⟨fill, p, -, mem⟩ := filling x hx
      exact ⟨fill, p, mem⟩
    · rintro x ⟨hx, settled⟩
      obtain ⟨fill, p, hp, mem⟩ := filling x hx
      have other : p ≠ parent := by
        rintro rfl
        exact settled mem
      exact ⟨alike.isFill_eq x ▸ fill, p, (List.mem_cons.mp hp).resolve_left other,
        alike.layersOf_eq p ▸ mem⟩

end WidgetTree

end AppBuilder
