import AppBuilder.Layout.Drag
import AppBuilder.Proofs.Layout.Drop

/-!
The bars of a stack of layers.

Each vertical bar of a row stands in a bucket of it: before one of its children, behind the last
of them, or alone when there are none (`Stands`), and what it counts agrees with where it stands
(`exists_stands`). Going down a stack, the bars count the widgets and the layers that the drag
leaves (`descend_counts`), so the bars of a row name it by its place among the layers left
(`mem_stackBars`), and so do the horizontal bars above the rows (`filter_stackBars`).
-/

namespace AppBuilder

namespace FlexLayer

/-! ### Buckets of a row -/

/-- The bucket that a child of a row stands in: all stand in the first when one of them fills the
row. -/
def bucketOf (l : FlexLayer) (c : LayerChild) : Alignment := if l.hasFill then .start else c.align

theorem mem_ids_of_mem_get {l : FlexLayer} {align : Alignment} {id : WidgetId}
    (mem : id ∈ l.spread.get align) : id ∈ l.ids :=
  l.perm_ids_spread.mem_iff.mp (Buckets.mem_ids_of_mem_get mem)

/-- A row has empty buckets only when it is empty. -/
theorem isEmpty_spread (l : FlexLayer) : l.spread.isEmpty = l.isEmpty := by
  have names : l.spread.isEmpty = l.spread.ids.isEmpty := by
    rw [Buckets.isEmpty, Buckets.ids]
    cases l.spread.start <;> cases l.spread.center <;> rfl
  rw [names, l.perm_ids_spread.isEmpty_eq, FlexLayer.isEmpty, ids, List.isEmpty_map]

/-- A packed row is what stands before a bucket, the bucket, and what stands behind it. -/
theorem Packed.exists_bucket {l : FlexLayer} (packed : l.Packed) (align : Alignment) :
    ∃ pre mid post, l.children = pre ++ mid ++ post ∧ pre.length = l.spread.offset align ∧
      mid.map (·.id) = l.spread.get align ∧ (∀ c ∈ mid, l.bucketOf c = align) ∧
      ∀ c ∈ pre ++ post, l.bucketOf c ≠ align := by
  by_cases fill : l.hasFill = true
  · have bucket : ∀ c, l.bucketOf c = .start := fun c => if_pos fill
    cases align with
    | start => exact ⟨[], l.children, [], by simp, rfl, by simp [spread, fill, Buckets.get, ids],
        fun c _ => bucket c, by simp⟩
    | center => exact ⟨l.children, [], [], by simp, by simp [spread, fill, Buckets.offset, ids],
        by simp [spread, fill, Buckets.get], by simp, by simp [bucket]⟩
    | finish => exact ⟨l.children, [], [], by simp, by simp [spread, fill, Buckets.offset, ids],
        by simp [spread, fill, Buckets.get], by simp, by simp [bucket]⟩
  · have bucket : ∀ c, l.bucketOf c = c.align := fun c => if_neg fill
    have split := packed.children_eq
    have own : ∀ {align} {c : LayerChild}, c ∈ l.children.filter (·.align = align) →
        c.align = align := fun hc => by simpa using (List.mem_filter.mp hc).2
    have names : ∀ align,
        (l.children.filter (·.align = align)).map (·.id) = l.spread.get align := by
      intro align
      rw [spread, if_neg fill]
      cases align <;> rfl
    have length : ∀ align,
        (l.children.filter (·.align = align)).length = (l.spread.get align).length := by
      intro align
      rw [← names, List.length_map]
    have apart : ∀ {own other : Alignment} {c : LayerChild},
        c ∈ l.children.filter (·.align = other) → other ≠ own → l.bucketOf c ≠ own :=
      fun hc differ same => differ ((own hc).symm.trans ((bucket _).symm.trans same))
    cases align with
    | start =>
      refine ⟨[], _, _, split.trans (List.append_assoc _ _ _), rfl, names .start,
        fun c hc => (bucket c).trans (own hc), fun c hc => ?_⟩
      rw [List.nil_append] at hc
      rcases List.mem_append.mp hc with hc | hc
      · exact apart hc (by decide)
      · exact apart hc (by decide)
    | center =>
      refine ⟨_, _, _, split, length .start, names .center,
        fun c hc => (bucket c).trans (own hc), fun c hc => ?_⟩
      rcases List.mem_append.mp hc with hc | hc
      · exact apart hc (by decide)
      · exact apart hc (by decide)
    | finish =>
      refine ⟨_, _, [], split.trans (List.append_nil _).symm, ?_, names .finish,
        fun c hc => (bucket c).trans (own hc), fun c hc => ?_⟩
      · rw [List.length_append, length, length]
        rfl
      · rw [List.append_nil] at hc
        rcases List.mem_append.mp hc with hc | hc
        · exact apart hc (by decide)
        · exact apart hc (by decide)

end FlexLayer

namespace BarContext

variable (b : BarContext)

/-! ### Bars of a row -/

section RowBars

variable {b} {ids : List WidgetId} (visible : ∀ id ∈ ids, (b.localRect? id).isSome = true)
  {first layer : Nat} {align : Alignment}
include visible

/-- A bar of a row stands before one of its widgets or behind the last of them. -/
theorem mem_rowBars {h : Highlight} (mem : h ∈ b.rowBars ids first layer align) :
    (∃ before id behind r, ids = before ++ id :: behind ∧ b.localRect? id = some r ∧
      h = b.rowBar first layer before.length align (greater (r.x - b.config.childGap) 0) r) ∨
    ∃ before id r, ids = before ++ [id] ∧ b.localRect? id = some r ∧
      h = b.rowBar first layer ids.length align r.right r := by
  rcases List.eq_nil_or_concat' ids with rfl | ⟨front, last, rfl⟩
  · simp [rowBars] at mem
  obtain ⟨r, hr⟩ := Option.isSome_iff_exists.mp (visible last (by simp))
  have shown : ((front ++ [last]).zipIdx.filterMap fun p =>
      (b.localRect? p.1).map fun r => (r, p.2)).getLast? = some (r, front.length) := by
    simp [List.zipIdx_append, hr]
  simp only [rowBars, shown, List.mem_append, List.mem_map, List.mem_filterMap, Prod.exists,
    List.mem_zipIdx_iff_getElem?, Option.map_eq_some_iff, Prod.mk.injEq, List.mem_singleton] at mem
  rcases mem with ⟨_, _, ⟨id, i, hi, r', hr', rfl, rfl⟩, rfl⟩ | rfl
  · obtain ⟨inside, rfl⟩ := List.getElem?_eq_some_iff.mp hi
    refine .inl ⟨(front ++ [last]).take i, _, (front ++ [last]).drop (i + 1), r', ?_, hr', ?_⟩
    · simp
    · rw [List.length_take_of_le (Nat.le_of_lt inside)]
  · exact .inr ⟨front, last, r, rfl, hr, rfl⟩

/-- A row with widgets has bars. -/
theorem rowBars_ne_nil (nonempty : ids ≠ []) : b.rowBars ids first layer align ≠ [] := by
  obtain ⟨id, rest, rfl⟩ := List.exists_cons_of_ne_nil nonempty
  obtain ⟨r, hr⟩ := Option.isSome_iff_exists.mp (visible id List.mem_cons_self)
  unfold rowBars
  dsimp only
  split <;> simp [List.zipIdx_cons, hr]

end RowBars

/-! ### Bars of a layer -/

/-- A bar between the children of a row: it stands before the next child of its bucket, behind
the last one of it, or alone in a bucket without children. -/
inductive Stands (b : BarContext) (row : FlexLayer) (rect : Rect) (h : Highlight) :
    List LayerChild → List LayerChild → Prop
  | before {front : List LayerChild} {c : LayerChild} {back : List LayerChild} {r : Rect}
      (bucket : row.bucketOf c = h.align) (shown : b.localRect? c.id = some r)
      (drawn : h.rect = ⟨greater (r.x - b.config.childGap) 0, r.y, b.config.barThickness,
        r.height⟩) : Stands b row rect h front (c :: back)
  | behind {front : List LayerChild} {c : LayerChild} {back : List LayerChild} {r : Rect}
      (bucket : row.bucketOf c = h.align) (last : ∀ c' ∈ back, row.bucketOf c' ≠ h.align)
      (shown : b.localRect? c.id = some r)
      (drawn : h.rect = ⟨r.right, r.y, b.config.barThickness, r.height⟩) :
      Stands b row rect h (front ++ [c]) back
  | alone {front back : List LayerChild} (foreign : ∀ c ∈ front ++ back, row.bucketOf c ≠ h.align)
      (drawn : h.rect = (b.initialBar h.index h.align h.layer rect false h.newLayer).rect) :
      Stands b row rect h front back

/-- What a vertical bar tells about the row that it is offered in: the container, the place of the
row, and the place of the bar in a bucket and among the children of the container. -/
structure Names (b : BarContext) (l : FlexLayer) (layer first : Nat) (h : Highlight) : Prop where
  canvas : h.canvas = b.canvas
  layer_eq : h.layer = layer
  vertical : h.orientation = .vertical
  newLayer : h.newLayer = l.isEmpty
  start_of_fill : l.hasFill = true → h.align = .start
  row_le : h.row ≤ (l.spread.get h.align).length
  index : h.index = first + (l.spread.offset h.align + h.row)

section LayerBars

variable {b} {l : FlexLayer} {layer : Nat} {rect : Rect} {first : Nat} {h : Highlight}

theorem exists_mem_bucketBars (mem : h ∈ b.layerBars l layer rect first) :
    ∃ align, (l.hasFill = true → align = .start) ∧
      h ∈ b.bucketBars (l.spread.get align) (first + l.spread.offset align) layer align rect
        l.spread.isEmpty (b.occupied l) := by
  unfold layerBars at mem
  dsimp only at mem
  split at mem
  · exact ⟨.start, fun _ => rfl, mem⟩
  · rename_i hug
    rcases List.mem_append.mp mem with mem | mem
    · rcases List.mem_append.mp mem with mem | mem
      · exact ⟨.start, fun _ => rfl, mem⟩
      · refine ⟨.finish, fun fill => absurd fill hug, ?_⟩
        simpa only [Buckets.offset, Nat.add_assoc] using (List.mem_filter.mp mem).1
    · exact ⟨.center, fun fill => absurd fill hug, (List.mem_filter.mp mem).1⟩

/-- The bars of a bucket are those of its widgets; when there are none there is one bar at most. -/
theorem mem_bucketBars {ids : List WidgetId} {align : Alignment} {rowEmpty : Bool}
    {occupied : Float} (visible : ∀ id ∈ ids, (b.localRect? id).isSome = true)
    (mem : h ∈ b.bucketBars ids first layer align rect rowEmpty occupied) :
    h ∈ b.rowBars ids first layer align ∨
      ids = [] ∧ h = b.initialBar first align layer rect false rowEmpty := by
  unfold bucketBars at mem
  split at mem
  · rename_i undrawn
    split at mem
    · simp at mem
    · refine .inr ⟨?_, List.mem_singleton.mp mem⟩
      by_contra nonempty
      exact rowBars_ne_nil visible nonempty undrawn
  · exact .inl mem

/-- Names are merged in at a bar behind the children that it counts, as far as these go. -/
theorem Names.mergePlace_eq (names : b.Names l layer first h) :
    (Buckets.ofChildren l.children).offset h.align +
        min h.row ((Buckets.ofChildren l.children).get h.align).length =
      l.mergePlace (l.spread.offset h.align + h.row) := by
  unfold FlexLayer.mergePlace
  split_ifs with fill
  · rw [names.start_of_fill fill]
    simp [Buckets.offset, Buckets.get, Buckets.ofChildren, Buckets.aligned,
      List.countP_eq_length_filter]
  · have spread : l.spread = .ofChildren l.children := if_neg fill
    have inside := names.row_le
    rw [spread] at inside ⊢
    rw [Nat.min_eq_left inside]

variable (visible : ∀ id ∈ l.ids, (b.localRect? id).isSome = true)
include visible

/-- The vertical bars offered in a layer name it. -/
theorem names_of_mem_layerBars (mem : h ∈ b.layerBars l layer rect first) :
    b.Names l layer first h := by
  obtain ⟨align, fill, mem⟩ := exists_mem_bucketBars mem
  have shown : ∀ id ∈ l.spread.get align, (b.localRect? id).isSome = true := fun id hid =>
    visible id (FlexLayer.mem_ids_of_mem_get hid)
  have nonempty : ∀ id, id ∈ l.spread.get align → false = l.isEmpty := by
    intro id hid
    have held := FlexLayer.mem_ids_of_mem_get hid
    cases hl : l.children with
    | nil => simp [FlexLayer.ids, hl] at held
    | cons c cs => simp [FlexLayer.isEmpty, hl]
  rcases mem_bucketBars shown mem with mem | ⟨vacant, rfl⟩
  · rcases mem_rowBars shown mem with ⟨before, id, behind, r, split, -, rfl⟩ |
      ⟨before, id, r, split, -, rfl⟩
    · refine ⟨rfl, rfl, rfl, nonempty id (by simp [split]), fill, ?_, Nat.add_assoc _ _ _⟩
      simp [rowBar, split]
    · exact ⟨rfl, rfl, rfl, nonempty id (by simp [split]), fill, Nat.le_refl _,
        Nat.add_assoc _ _ _⟩
  · exact ⟨rfl, rfl, rfl, l.isEmpty_spread, fill, Nat.zero_le _, rfl⟩

/-- In a packed row a bar stands where it counts. -/
theorem exists_stands (packed : l.Packed) (mem : h ∈ b.layerBars l layer rect first) :
    ∃ front back, l.children = front ++ back ∧
      front.length = l.spread.offset h.align + h.row ∧ b.Stands l rect h front back := by
  obtain ⟨align, -, mem⟩ := exists_mem_bucketBars mem
  have shown : ∀ id ∈ l.spread.get align, (b.localRect? id).isSome = true := fun id hid =>
    visible id (FlexLayer.mem_ids_of_mem_get hid)
  obtain ⟨pre, mid, post, split, length, names, inside, outside⟩ := packed.exists_bucket align
  rcases mem_bucketBars shown mem with mem | ⟨vacant, rfl⟩
  · rcases mem_rowBars shown mem with ⟨before, id, behind, r, own, drawn, rfl⟩ |
      ⟨before, id, r, own, drawn, rfl⟩
    · -- the bar stands before a child of its bucket
      obtain ⟨mid₁, mid', rfl, rfl, names⟩ := List.map_eq_append_iff.mp (names.trans own)
      obtain ⟨c, mid₂, rfl, rfl, rfl⟩ := List.map_eq_cons_iff.mp names
      refine ⟨pre ++ mid₁, c :: (mid₂ ++ post), by simp [split], ?_,
        .before (inside c (by simp)) drawn rfl⟩
      simp [length, rowBar]
    · -- the bar stands behind all children of its bucket
      obtain ⟨mid₁, mid', rfl, rfl, names⟩ := List.map_eq_append_iff.mp (names.trans own)
      obtain ⟨c, rfl, rfl⟩ := List.map_eq_singleton_iff.mp names
      refine ⟨pre ++ mid₁ ++ [c], post, by simp [split], ?_,
        .behind (inside c (by simp)) (fun c' hc => outside c' (by simp [hc])) drawn rfl⟩
      simp [length, rowBar, own]
  · have bare : mid = [] := by simpa [vacant] using names
    exact ⟨pre, post, by simpa [bare] using split, length, .alone outside rfl⟩

end LayerBars

/-! ### Bars of a stack -/

/-- The layers that keep a widget. -/
def survivors (t : WidgetTree) (layers : List FlexLayer) (dragged : List WidgetId) :
    List FlexLayer :=
  layers.filter fun l => !(l.without t dragged).isEmpty

/-- Where the horizontal bar above a visible layer is drawn. -/
def edgeAbove (b : BarContext) (l : FlexLayer) : Float :=
  ((b.layerRect? l).map fun r => greater (r.y - b.config.barThickness) 0).getD 0

/-- The layers of a stack have children, and all of these are visible. -/
structure Visible (b : BarContext) (layers : List FlexLayer) : Prop where
  filled : ∀ l ∈ layers, l.children ≠ []
  shown : ∀ l ∈ layers, ∀ id ∈ l.ids, (b.localRect? id).isSome = true

/-- The layers of which something is visible. -/
def shown (b : BarContext) (layers : List FlexLayer) : List FlexLayer :=
  layers.filter fun l => (b.layerRect? l).isSome

/-- Where the bars stand after some more layers of a stack. -/
def descend (b : BarContext) (t : WidgetTree) (dragged : List WidgetId) (s : Stacking)
    (layers : List FlexLayer) : Stacking :=
  layers.foldl (fun s l => b.stackLayer s l (l.without t dragged)) s

section StackBars

variable {b} {t : WidgetTree} {dragged : List WidgetId} {l : FlexLayer} {layers : List FlexLayer}

theorem Visible.exists_rect (visible : b.Visible (l :: layers)) :
    ∃ rect, b.layerRect? l = some rect := by
  obtain ⟨c, rest, hl⟩ := List.exists_cons_of_ne_nil (visible.filled l List.mem_cons_self)
  obtain ⟨r, hr⟩ := Option.isSome_iff_exists.mp
    (visible.shown l List.mem_cons_self c.id (by simp [FlexLayer.ids, hl]))
  simp [layerRect?, FlexLayer.ids, hl, hr]

theorem Visible.tail (visible : b.Visible (l :: layers)) : b.Visible layers :=
  ⟨fun l' hl' => visible.filled l' (List.mem_cons_of_mem _ hl'),
    fun l' hl' => visible.shown l' (List.mem_cons_of_mem _ hl')⟩

theorem shown_cons (b : BarContext) (l : FlexLayer) (layers : List FlexLayer) :
    b.shown (l :: layers) =
      if (b.layerRect? l).isSome then l :: b.shown layers else b.shown layers :=
  List.filter_cons

theorem Visible.shown_eq (visible : b.Visible layers) : b.shown layers = layers := by
  induction layers with
  | nil => rfl
  | cons l layers ih =>
    obtain ⟨rect, hr⟩ := visible.exists_rect
    rw [shown_cons, hr, Option.isSome_some, if_pos rfl, ih visible.tail]

theorem Visible.shown_without (visible : b.Visible (l :: layers)) :
    ∀ id ∈ (l.without t dragged).ids, (b.localRect? id).isSome = true := fun id hid =>
  visible.shown l List.mem_cons_self id (List.mem_filter.mp (FlexLayer.ids_without t _ _ ▸ hid)).1

/-- Going on to a layer that is visible. -/
theorem stackLayer_of_rect {rect : Rect} (hr : b.layerRect? l = some rect) (s : Stacking)
    (rest : FlexLayer) :
    (b.stackLayer s l rest).bars = s.bars ++
      (if rest.isEmpty then [] else [b.newLayerBar s.count s.kept (b.edgeAbove l)]) ++
      b.layerBars rest s.kept rect s.count ∧
    (b.stackLayer s l rest).count = s.count + rest.children.length ∧
    (b.stackLayer s l rest).kept = s.kept + if rest.isEmpty then 0 else 1 := by
  by_cases spent : rest.isEmpty = true
  · have bare : rest.children = [] := by simpa [FlexLayer.isEmpty] using spent
    simp [stackLayer, hr, spent, bare]
  · simp [stackLayer, edgeAbove, hr, spent]

theorem length_flatten_without_cons (t : WidgetTree) (dragged : List WidgetId) (l : FlexLayer)
    (layers : List FlexLayer) : (Layers.flatten (Layers.without t dragged (l :: layers))).length =
      (l.without t dragged).children.length +
        (Layers.flatten (Layers.without t dragged layers)).length := by
  rw [Layers.without_cons]
  by_cases spent : (l.without t dragged).isEmpty = true
  · have bare : (l.without t dragged).children = [] := by simpa [FlexLayer.isEmpty] using spent
    simp [spent, bare]
  · simp [spent, FlexLayer.ids]

theorem length_without_cons (t : WidgetTree) (dragged : List WidgetId) (l : FlexLayer)
    (layers : List FlexLayer) : (Layers.without t dragged (l :: layers)).length =
      (if (l.without t dragged).isEmpty then 0 else 1) +
        (Layers.without t dragged layers).length := by
  rw [Layers.without_cons]
  split <;> simp [Nat.add_comm]

theorem survivors_cons (t : WidgetTree) (dragged : List WidgetId) (l : FlexLayer)
    (layers : List FlexLayer) : survivors t (l :: layers) dragged =
      (if (l.without t dragged).isEmpty then [] else [l]) ++ survivors t layers dragged := by
  rw [survivors, List.filter_cons]
  cases (l.without t dragged).isEmpty <;> rfl

/-- The bars count the widgets and the layers that the drag leaves, passing over layers of which
nothing is visible. -/
theorem descend_counts_shown (t : WidgetTree) (dragged : List WidgetId) (layers : List FlexLayer)
    (s : Stacking) :
    (b.descend t dragged s layers).count =
        s.count + (Layers.flatten (Layers.without t dragged (b.shown layers))).length ∧
      (b.descend t dragged s layers).kept =
        s.kept + (Layers.without t dragged (b.shown layers)).length := by
  induction layers generalizing s with
  | nil => exact ⟨rfl, rfl⟩
  | cons l layers ih =>
    obtain ⟨ih₁, ih₂⟩ := ih (b.stackLayer s l (l.without t dragged))
    cases hr : b.layerRect? l with
    | none =>
      have same : b.stackLayer s l (l.without t dragged) = s := by rw [stackLayer, hr]
      rw [same] at ih₁ ih₂
      rw [shown_cons, hr]
      rw [descend, List.foldl_cons, same]
      exact ⟨ih₁, ih₂⟩
    | some rect =>
      obtain ⟨-, count, kept⟩ := stackLayer_of_rect hr s (l.without t dragged)
      rw [shown_cons, hr, Option.isSome_some, if_pos rfl, length_flatten_without_cons,
        length_without_cons, ← Nat.add_assoc, ← Nat.add_assoc, ← count, ← kept]
      exact ⟨ih₁, ih₂⟩

/-- The bars of layers that are all visible count the widgets and the layers that the drag
leaves. -/
theorem descend_counts (t : WidgetTree) (dragged : List WidgetId) (visible : b.Visible layers)
    (s : Stacking) :
    (b.descend t dragged s layers).count =
        s.count + (Layers.flatten (Layers.without t dragged layers)).length ∧
      (b.descend t dragged s layers).kept = s.kept + (Layers.without t dragged layers).length := by
  have counts := b.descend_counts_shown t dragged layers s
  rwa [visible.shown_eq] at counts

/-- A bar of a stack stands above a layer that is left or in the row of a layer. -/
theorem mem_descend (visible : b.Visible layers) (s : Stacking) {h : Highlight}
    (mem : h ∈ (b.descend t dragged s layers).bars) : h ∈ s.bars ∨ ∃ done l more,
      layers = done ++ l :: more ∧
      let count := s.count + (Layers.flatten (Layers.without t dragged done)).length
      let kept := s.kept + (Layers.without t dragged done).length
      ((l.without t dragged).isEmpty = false ∧ h = b.newLayerBar count kept (b.edgeAbove l)) ∨
        ∃ rect, h ∈ b.layerBars (l.without t dragged) kept rect count := by
  induction layers generalizing s with
  | nil => exact .inl mem
  | cons l layers ih =>
    obtain ⟨rect, hr⟩ := visible.exists_rect
    obtain ⟨bars, count, kept⟩ := stackLayer_of_rect hr s (l.without t dragged)
    rcases ih visible.tail (b.stackLayer s l (l.without t dragged)) mem with mem | below
    · rw [bars] at mem
      rcases List.mem_append.mp mem with mem | mem
      · rcases List.mem_append.mp mem with mem | mem
        · exact .inl mem
        · refine .inr ⟨[], l, layers, rfl, .inl ?_⟩
          split at mem
          · simp at mem
          · rename_i filled
            exact ⟨by simpa using filled, List.mem_singleton.mp mem⟩
      · exact .inr ⟨[], l, layers, rfl, .inr ⟨rect, mem⟩⟩
    · obtain ⟨done, l', more, rfl, spec⟩ := below
      refine .inr ⟨l :: done, l', more, rfl, ?_⟩
      dsimp only at spec ⊢
      rw [length_flatten_without_cons, length_without_cons, ← Nat.add_assoc, ← Nat.add_assoc,
        ← count, ← kept]
      exact spec

/-- The horizontal bars of a stack stand one above each layer that is left and one below. -/
theorem filter_descend (visible : b.Visible layers) (s : Stacking) :
    (b.descend t dragged s layers).bars.filter (·.orientation = .horizontal) =
      s.bars.filter (·.orientation = .horizontal) ++
        (survivors t layers dragged).mapIdx fun j l => b.newLayerBar
          (s.count + (Layers.flatten ((Layers.without t dragged layers).take j)).length)
          (s.kept + j) (b.edgeAbove l) := by
  induction layers generalizing s with
  | nil => simp [descend, survivors]
  | cons l layers ih =>
    obtain ⟨rect, hr⟩ := visible.exists_rect
    obtain ⟨bars, count, kept⟩ := stackLayer_of_rect hr s (l.without t dragged)
    have upright : (b.layerBars (l.without t dragged) s.kept rect s.count).filter
        (·.orientation = .horizontal) = [] := List.filter_eq_nil_iff.mpr fun h hh => by
      simp [(names_of_mem_layerBars visible.shown_without hh).vertical]
    have rest := ih visible.tail (b.stackLayer s l (l.without t dragged))
    rw [bars, count, kept, List.filter_append, List.filter_append, upright] at rest
    refine rest.trans ?_
    rw [survivors_cons, Layers.without_cons]
    by_cases spent : (l.without t dragged).isEmpty = true
    · have bare : (l.without t dragged).children = [] := by simpa [FlexLayer.isEmpty] using spent
      simp [spent, bare]
    · simp [spent, newLayerBar, List.mapIdx_cons, Nat.add_assoc, Nat.add_comm 1, FlexLayer.ids]

/-- The bars of a stack end with one below all layers that are left. -/
theorem exists_stackBars_eq (t : WidgetTree) (dragged : List WidgetId)
    (visible : b.Visible layers) : ∃ y, b.stackBars t layers dragged =
      (b.descend t dragged ⟨[], 0, 0, 0⟩ layers).bars ++
        [b.newLayerBar (Layers.flatten (Layers.without t dragged layers)).length
          (Layers.without t dragged layers).length y] := by
  obtain ⟨count, kept⟩ := descend_counts t dragged visible ⟨[], 0, 0, 0⟩
  rw [Nat.zero_add] at count kept
  refine ⟨(b.descend t dragged ⟨[], 0, 0, 0⟩ layers).bottom, ?_⟩
  rw [← count, ← kept]
  rfl

/-- A bar of a stack stands below all layers that are left, above one of them or in the row of a
layer. -/
theorem mem_stackBars (visible : b.Visible layers) {h : Highlight}
    (mem : h ∈ b.stackBars t layers dragged) :
    (∃ y, h = b.newLayerBar (Layers.flatten (Layers.without t dragged layers)).length
      (Layers.without t dragged layers).length y) ∨
    ∃ done l more, layers = done ++ l :: more ∧
      let count := (Layers.flatten (Layers.without t dragged done)).length
      let kept := (Layers.without t dragged done).length
      ((l.without t dragged).isEmpty = false ∧ h = b.newLayerBar count kept (b.edgeAbove l)) ∨
        ∃ rect, h ∈ b.layerBars (l.without t dragged) kept rect count := by
  obtain ⟨y, eq⟩ := exists_stackBars_eq t dragged visible
  rw [eq] at mem
  rcases List.mem_append.mp mem with mem | mem
  · rcases mem_descend visible ⟨[], 0, 0, 0⟩ mem with mem | ⟨done, l, more, split, spec⟩
    · simp at mem
    · simp only [Nat.zero_add] at spec
      exact .inr ⟨done, l, more, split, spec⟩
  · exact .inl ⟨y, List.mem_singleton.mp mem⟩

/-- The horizontal bars of a stack stand one above each layer that is left, which it names by its
place among these, and one below all of them. -/
theorem filter_stackBars (t : WidgetTree) (dragged : List WidgetId) (visible : b.Visible layers) :
    ∃ y, (b.stackBars t layers dragged).filter (·.orientation = .horizontal) =
      ((survivors t layers dragged).mapIdx fun j l => b.newLayerBar
        (Layers.flatten ((Layers.without t dragged layers).take j)).length j (b.edgeAbove l)) ++
      [b.newLayerBar (Layers.flatten (Layers.without t dragged layers)).length
        (Layers.without t dragged layers).length y] := by
  obtain ⟨y, eq⟩ := exists_stackBars_eq t dragged visible
  refine ⟨y, ?_⟩
  rw [eq, List.filter_append, filter_descend visible]
  simp [newLayerBar]

end StackBars

end BarContext

end AppBuilder
