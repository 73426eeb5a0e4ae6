import AppBuilder.Proofs.Layout.Columns

/-!
Widgets side by side.

Packing puts the widgets of a bucket side by side from a column on (`SideBySide`), and packing the
buckets of a row puts each of them in its part of the grid (`Aligned`). Widgets that stand so are
not written when they are packed again (`Aligned.placeBuckets_eq`), for what a widget is given is
read off widths that packing keeps.
-/

namespace AppBuilder.WidgetTree

/-! ### Edges -/

/-- The row below a widget. -/
def bottomOf (t : WidgetTree) (id : WidgetId) : Int := ((t.placeOf? id).map (·.bottomRow)).getD 0

/-- The column that a widget starts in. -/
def leftOf (t : WidgetTree) (id : WidgetId) : Int := ((t.placeOf? id).map (·.leftColumn)).getD 0

/-- The column behind a widget. -/
def rightOf (t : WidgetTree) (id : WidgetId) : Int := ((t.placeOf? id).map (·.rightColumn)).getD 0

section Edges

variable {t s : WidgetTree} {id : WidgetId} (same : s.placeOf? id = t.placeOf? id)
include same

theorem bottomOf_congr : s.bottomOf id = t.bottomOf id := by
  rw [bottomOf, bottomOf, same]

theorem leftOf_congr : s.leftOf id = t.leftOf id := by
  rw [leftOf, leftOf, same]

theorem rightOf_congr : s.rightOf id = t.rightOf id := by
  rw [rightOf, rightOf, same]

end Edges

/-! ### Widgets side by side -/

/-- Widgets stand side by side from a column on. -/
def SideBySide (t : WidgetTree) : List WidgetId → Int → Prop
  | [], _ => True
  | id :: ids, left => (t.leftOf id = left ∧ t.rightOf id = left + t.columnsOf id) ∧
      t.SideBySide ids (left + t.columnsOf id)

/-- Packing the first widget, then the others behind it. -/
theorem packColumns_cons {t : WidgetTree} {id : WidgetId} (there : t.contains id = true)
    (ids : List WidgetId) (left : Int) : t.packColumns (id :: ids) left =
      (packColumn (t, left) id).1.packColumns ids (left + t.columnsOf id) := by
  have known : (packColumn (t, left) id).1.contains = t.contains := funext fun x =>
    ((placed_packColumn (t, left) (List.mem_singleton_self id)).alike.kin.contains_eq x).symm
  rw [packColumns, packColumns, List.filter_cons_of_pos there, List.foldl_cons, known]
  rfl

namespace SideBySide

variable {t s : WidgetTree} {ids front back : List WidgetId} {left : Int}

/-- Widgets that are not placed stay side by side. -/
theorem placed (h : t.SideBySide ids left) {others : List WidgetId} (placed : t.Placed others s)
    (apart : ∀ id ∈ ids, id ∉ others) : s.SideBySide ids left := by
  induction ids generalizing left with
  | nil => trivial
  | cons id ids ih =>
    obtain ⟨own, rest⟩ := List.forall_mem_cons.mp apart
    have stays := placed.apart id own
    rw [SideBySide, leftOf_congr stays, rightOf_congr stays, placed.columnsOf_eq]
    exact ⟨h.1, ih h.2 rest⟩

theorem append_iff : t.SideBySide (front ++ back) left ↔
    t.SideBySide front left ∧ t.SideBySide back (left + t.columnSum front) := by
  induction front generalizing left with
  | nil => simp [SideBySide]
  | cons id front ih =>
    rw [List.cons_append, SideBySide, ih, SideBySide, columnSum_cons, ← Int.add_assoc]
    exact and_assoc.symm

/-- Widgets side by side take the columns that they need together. -/
theorem between (h : t.SideBySide ids left) {id : WidgetId} (mem : id ∈ ids) :
    left ≤ t.leftOf id ∧ t.leftOf id ≤ t.rightOf id ∧
      t.rightOf id ≤ left + t.columnSum ids := by
  obtain ⟨front, back, rfl⟩ := List.append_of_mem mem
  obtain ⟨-, ⟨start, stop⟩, -⟩ := append_iff.mp h
  have before := t.columnSum_nonneg front
  have own := t.columnsOf_nonneg id
  have behind := t.columnSum_nonneg back
  rw [columnSum_append, columnSum_cons]
  omega

/-- A widget is as wide as the columns that it takes. -/
theorem rightOf_eq (h : t.SideBySide ids left) {id : WidgetId} (mem : id ∈ ids) :
    t.rightOf id = t.leftOf id + t.columnsOf id := by
  obtain ⟨front, back, rfl⟩ := List.append_of_mem mem
  obtain ⟨-, ⟨start, stop⟩, -⟩ := append_iff.mp h
  rw [stop, start]

/-- Each widget starts where the one before it ends. -/
theorem isChain (h : t.SideBySide ids left) : ids.IsChain fun x y => t.rightOf x = t.leftOf y := by
  induction ids generalizing left with
  | nil => exact .nil
  | cons id ids ih =>
    cases ids with
    | nil => exact .singleton id
    | cons next ids => exact .cons_cons (h.1.2.trans h.2.1.1.symm) (ih h.2)

theorem leftOf_head? (h : t.SideBySide ids left) {id : WidgetId} (first : ids.head? = some id) :
    t.leftOf id = left := by
  obtain ⟨rest, rfl⟩ := List.head?_eq_some_iff.mp first
  exact h.1.1

theorem rightOf_getLast? (h : t.SideBySide ids left) {id : WidgetId}
    (last : ids.getLast? = some id) : t.rightOf id = left + t.columnSum ids := by
  obtain ⟨front, rfl⟩ := List.getLast?_eq_some_iff.mp last
  obtain ⟨-, own, -⟩ := append_iff.mp h
  rw [own.2, columnSum_append, columnSum_cons, columnSum_nil, Int.add_zero, Int.add_assoc]

/-- Packing other widgets leaves widgets side by side. -/
theorem packColumns (h : t.SideBySide ids left) {others : List WidgetId}
    (apart : ∀ id ∈ ids, id ∉ others) (left' : Int) :
    (t.packColumns others left').SideBySide ids left :=
  h.placed (placed_packColumns t others left') apart

/-- Widgets that stand side by side are not packed again. -/
theorem packColumns_eq (h : t.SideBySide ids left) (there : ∀ id ∈ ids, t.contains id = true) :
    t.packColumns ids left = t := by
  induction ids generalizing left with
  | nil => rfl
  | cons id ids ih =>
    obtain ⟨own, rest⟩ := List.forall_mem_cons.mp there
    have stays : (packColumn (t, left) id).1 = t := by
      dsimp only [packColumn]
      refine reposition_eq_self fun p hp => ?_
      have start : p.leftColumn = left := by simpa [leftOf, hp] using h.1.1
      have stop : p.rightColumn = left + t.columnsOf id := by simpa [rightOf, hp] using h.1.2
      rw [← stop, ← start]
    rw [packColumns_cons own, stays, ih h.2 rest]

end SideBySide

/-- Packed widgets stand side by side. -/
theorem sideBySide_packColumns {t : WidgetTree} {ids : List WidgetId} (nodup : ids.Nodup)
    (there : ∀ id ∈ ids, t.contains id = true) (left : Int) :
    (t.packColumns ids left).SideBySide ids left := by
  induction ids generalizing t left with
  | nil => trivial
  | cons id ids ih =>
    obtain ⟨fresh, nodup⟩ := List.nodup_cons.mp nodup
    obtain ⟨own, rest⟩ := List.forall_mem_cons.mp there
    obtain ⟨p, hp⟩ := exists_placeOf? own
    have first := placed_packColumn (t, left) (List.mem_singleton_self id)
    have packed : (packColumn (t, left) id).1.placeOf? id =
        some { p with leftColumn := left, rightColumn := left + t.columnsOf id } := by
      rw [packColumn, placeOf?_reposition, if_pos rfl, hp, Option.map_some]
    have later := placed_packColumns (packColumn (t, left) id).1 ids (left + t.columnsOf id)
    have stays := (later.apart id fresh).trans packed
    rw [packColumns_cons own, SideBySide, later.columnsOf_eq, first.columnsOf_eq]
    refine ⟨?_, ih nodup (fun x hx => first.alike.kin.contains_eq x ▸ rest x hx) _⟩
    rw [leftOf, rightOf, stays]
    exact ⟨rfl, rfl⟩

/-! ### Buckets -/

/-- The column that a bucket of a row starts in. -/
def bucketLeft (c : LayoutConfig) (t : WidgetTree) (b : Buckets) : Alignment → Int
  | .start => 0
  | .center => max ((c.gridColumns - t.columnSum b.center) / 2) 0
  | .finish => max (c.gridColumns - t.columnSum b.finish) 0

/-- Each bucket of a row stands in its part of the grid. -/
def Aligned (c : LayoutConfig) (t : WidgetTree) (b : Buckets) : Prop :=
  ∀ align, t.SideBySide (b.get align) (bucketLeft c t b align)

section Buckets

variable {c : LayoutConfig} {t s : WidgetTree} {b : Buckets}

theorem bucketLeft_congr (same : ∀ id, s.columnsOf id = t.columnsOf id) (align : Alignment) :
    bucketLeft c s b align = bucketLeft c t b align := by
  have sums : ∀ ids, s.columnSum ids = t.columnSum ids := fun ids =>
    columnSum_congr fun id _ => same id
  cases align <;> simp only [bucketLeft, sums]

theorem bottomOf_placeBuckets (id : WidgetId) :
    (t.placeBuckets c b).bottomOf id = t.bottomOf id := by
  rw [bottomOf, bottomOf, map_placeOf?_placeBuckets c fun _ _ _ => rfl]

/-- A bucket that fits the grid lies inside. -/
theorem bucketLeft_fits {align : Alignment} (fits : t.columnSum (b.get align) ≤ c.gridColumns) :
    0 ≤ bucketLeft c t b align ∧
      bucketLeft c t b align + t.columnSum (b.get align) ≤ c.gridColumns := by
  cases align with
  | start => exact ⟨Int.le_refl 0, by simpa [bucketLeft] using fits⟩
  | center =>
    simp only [bucketLeft, Buckets.get] at fits ⊢
    omega
  | finish =>
    simp only [bucketLeft, Buckets.get] at fits ⊢
    omega

theorem Aligned.placed (h : t.Aligned c b) {others : List WidgetId} (placed : t.Placed others s)
    (apart : ∀ id ∈ b.ids, id ∉ others) : s.Aligned c b := by
  intro align
  rw [bucketLeft_congr placed.columnsOf_eq]
  exact (h align).placed placed fun id hid => apart id (Buckets.mem_ids_of_mem_get hid)

/-- Buckets that stand where they belong are not placed again. -/
theorem Aligned.placeBuckets_eq (h : t.Aligned c b)
    (there : ∀ id ∈ b.ids, t.contains id = true) : t.placeBuckets c b = t := by
  have stays : ∀ align, t.packColumns (b.get align) (bucketLeft c t b align) = t := fun align =>
    (h align).packColumns_eq fun id hid => there id (Buckets.mem_ids_of_mem_get hid)
  have start : t.packColumns b.start 0 = t := stays .start
  have center : t.packColumns b.center (max ((c.gridColumns - t.columnSum b.center) / 2) 0) = t :=
    stays .center
  have finish : t.packColumns b.finish (max (c.gridColumns - t.columnSum b.finish) 0) = t :=
    stays .finish
  rw [placeBuckets, start, center, finish]

/-- Placing the buckets of a row aligns them. -/
theorem aligned_placeBuckets (c : LayoutConfig) (nodup : b.ids.Nodup)
    (there : ∀ id ∈ b.ids, t.contains id = true) : (t.placeBuckets c b).Aligned c b := by
  have known : ∀ s, t.Alike s → ∀ align, ∀ id ∈ b.get align, s.contains id = true :=
    fun s alike align id hid =>
      alike.kin.contains_eq id ▸ there id (Buckets.mem_ids_of_mem_get hid)
  have first := alike_packColumns t b.start 0
  have second := first.trans (alike_packColumns _ b.center (bucketLeft c t b .center))
  have apart := Buckets.apart nodup
  intro align
  rw [bucketLeft_congr (placed_placeBuckets c t b).columnsOf_eq]
  -- a bucket is packed once, and what is packed after it holds none of its names
  cases align with
  | start =>
    have packed := sideBySide_packColumns (Buckets.nodup_get nodup .start)
      (known t (.refl t) .start) 0
    exact (packed.packColumns (apart .start .center (by decide)) _).packColumns
      (apart .start .finish (by decide)) _
  | center =>
    have packed := sideBySide_packColumns (Buckets.nodup_get nodup .center)
      (known _ first .center) (bucketLeft c t b .center)
    exact packed.packColumns (apart .center .finish (by decide)) _
  | finish =>
    exact sideBySide_packColumns (Buckets.nodup_get nodup .finish) (known _ second .finish) _

end Buckets

end AppBuilder.WidgetTree
