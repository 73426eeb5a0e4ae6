import AppBuilder.Proofs.Layout.Rearrange

/-!
Widgets that share the columns of their rows.

A layer is shared (`Shares`) when each of its filling widgets is as wide as the columns left by
the others allow, and a container is balanced (`Balanced`) when all its layers are. Sharing the
columns of a container balances it and leaves the widgets of all others alone, since no widget is
in the layers of two containers (`Tidy`). Placing widgets clips widths at zero only, which a share
never is below, so it keeps a balance (`Balanced.placed`).
-/

namespace AppBuilder.WidgetTree

/-! ### Columns of widgets -/

theorem columnsOf_nonneg (t : WidgetTree) (id : WidgetId) : 0 ≤ t.columnsOf id := by
  rw [columnsOf_eq]
  exact Int.le_max_right _ _

section ColumnSum

variable (t : WidgetTree)

@[simp] theorem columnSum_nil : t.columnSum [] = 0 := rfl

@[simp] theorem columnSum_cons (id : WidgetId) (ids : List WidgetId) :
    t.columnSum (id :: ids) = t.columnsOf id + t.columnSum ids := rfl

@[simp] theorem columnSum_append (front back : List WidgetId) :
    t.columnSum (front ++ back) = t.columnSum front + t.columnSum back := by
  induction front with
  | nil => simp
  | cons id front ih => rw [List.cons_append, columnSum_cons, ih, columnSum_cons, Int.add_assoc]

theorem columnSum_nonneg (ids : List WidgetId) : 0 ≤ t.columnSum ids := by
  induction ids with
  | nil => exact Int.le_refl 0
  | cons id ids ih => exact Int.add_nonneg (t.columnsOf_nonneg id) ih

end ColumnSum

/-! ### Shares -/

/-- Each filling widget of a layer has its share of the columns. -/
def Shares (c : LayoutConfig) (t : WidgetTree) (l : FlexLayer) : Prop :=
  ∀ id ∈ l.ids, t.isFill id = true → t.widthOf id = fillShare c t l.ids

/-- All layers of a container are shared. -/
def Balanced (c : LayoutConfig) (t : WidgetTree) (id : WidgetId) : Prop :=
  ∀ l ∈ t.layersOf id, t.Shares c l

section Shares

variable {c : LayoutConfig} {t s : WidgetTree}

theorem columnSum_congr {ids : List WidgetId}
    (same : ∀ id ∈ ids, s.columnsOf id = t.columnsOf id) : s.columnSum ids = t.columnSum ids :=
  List.foldr_ext _ _ _ fun id hid sum => by rw [same id hid]

theorem fillShare_congr {ids : List WidgetId} (fill : ∀ id ∈ ids, s.isFill id = t.isFill id)
    (columns : ∀ id ∈ ids, t.isFill id = false → s.columnsOf id = t.columnsOf id) :
    fillShare c s ids = fillShare c t ids := by
  have filling : ids.filter s.isFill = ids.filter t.isFill := List.filter_congr fill
  have hugging : ids.filter (fun id => !s.isFill id) = ids.filter fun id => !t.isFill id :=
    List.filter_congr fun id hid => by rw [fill id hid]
  have sum : s.columnSum (ids.filter fun id => !t.isFill id) =
      t.columnSum (ids.filter fun id => !t.isFill id) :=
    columnSum_congr fun id hid => by
      obtain ⟨mem, hug⟩ := List.mem_filter.mp hid
      exact columns id mem (by simpa using hug)
  simp only [fillShare, filling, hugging, sum]

theorem fillShare_nonneg (ids : List WidgetId) : 0 ≤ fillShare c t ids :=
  Int.ediv_nonneg (Int.le_max_right _ _) (Int.natCast_nonneg _)

/-- A layer stays shared when its widgets keep their sizing and, down to none, their width. -/
theorem Shares.congr {l : FlexLayer} (h : t.Shares c l)
    (fill : ∀ id ∈ l.ids, s.isFill id = t.isFill id)
    (width : ∀ id ∈ l.ids, s.widthOf id = t.widthOf id ∨ s.widthOf id = max (t.widthOf id) 0) :
    s.Shares c l := by
  have columns : ∀ id ∈ l.ids, s.columnsOf id = t.columnsOf id := by
    intro id hid
    have := width id hid
    rw [columnsOf_eq, columnsOf_eq]
    omega
  intro id hid filling
  rw [fillShare_congr fill fun id hid _ => columns id hid]
  have share := h id hid (fill id hid ▸ filling)
  have nonneg : 0 ≤ fillShare c t l.ids := fillShare_nonneg l.ids
  have := width id hid
  omega

/-- A container stays balanced as long as it keeps its layers and these their widgets. -/
theorem Balanced.congr {id : WidgetId} (h : t.Balanced c id)
    (layers : s.layersOf id = t.layersOf id)
    (fill : ∀ x ∈ Layers.flatten (t.layersOf id), s.isFill x = t.isFill x)
    (width : ∀ x ∈ Layers.flatten (t.layersOf id),
      s.widthOf x = t.widthOf x ∨ s.widthOf x = max (t.widthOf x) 0) : s.Balanced c id := by
  intro l hl
  rw [layers] at hl
  have mem : ∀ x ∈ l.ids, x ∈ Layers.flatten (t.layersOf id) := fun x hx =>
    List.mem_flatMap.mpr ⟨l, hl, hx⟩
  exact (h l hl).congr (fun x hx => fill x (mem x hx)) fun x hx => width x (mem x hx)

theorem Balanced.undisturbed {id : WidgetId} (h : t.Balanced c id)
    (undisturbed : t.Undisturbed id s) : s.Balanced c id :=
  h.congr undisturbed.layersOf_eq (fun x _ => undisturbed.isFill_eq x)
    fun x _ => .inl (widthOf_congr (undisturbed.placeOf?_eq x))

theorem Balanced.placed {id : WidgetId} (h : t.Balanced c id) {ids : List WidgetId}
    (placed : t.Placed ids s) : s.Balanced c id :=
  h.congr (placed.alike.layersOf_eq id).symm (fun x _ => (placed.alike.isFill_eq x).symm)
    fun x _ => placed.widthOf_eq x

/-- The columns of widgets are those of the ones of a kind and of the others. -/
theorem columnSum_filter (p : WidgetId → Bool) (ids : List WidgetId) :
    t.columnSum ids = t.columnSum (ids.filter fun id => !p id) + t.columnSum (ids.filter p) := by
  induction ids with
  | nil => rfl
  | cons id ids ih =>
    rw [columnSum_cons, ih, List.filter_cons, List.filter_cons]
    cases p id
    · exact (Int.add_assoc _ _ _).symm
    · exact Int.add_left_comm _ _ _

theorem columnSum_of_same {ids : List WidgetId} {width : Int}
    (same : ∀ id ∈ ids, t.columnsOf id = width) : t.columnSum ids = ids.length * width := by
  induction ids with
  | nil => simp
  | cons id ids ih =>
    obtain ⟨own, rest⟩ := List.forall_mem_cons.mp same
    rw [columnSum_cons, own, ih rest, List.length_cons, Int.natCast_succ, Int.add_mul, Int.one_mul,
      Int.add_comm]

/-- A shared layer that the others do not overflow stays within the columns, and leaves fewer of
them unused than it has filling widgets. -/
theorem Shares.columnSum_le {l : FlexLayer} (h : t.Shares c l)
    (filled : l.ids.filter t.isFill ≠ [])
    (room : t.columnSum (l.ids.filter fun id => !t.isFill id) ≤ c.gridColumns) :
    t.columnSum l.ids ≤ c.gridColumns ∧
      c.gridColumns - t.columnSum l.ids < (l.ids.filter t.isFill).length := by
  have widths : t.columnSum (l.ids.filter t.isFill) =
      (l.ids.filter t.isFill).length * fillShare c t l.ids := by
    refine columnSum_of_same fun id hid => ?_
    obtain ⟨mem, filling⟩ := List.mem_filter.mp hid
    have nonneg : 0 ≤ fillShare c t l.ids := fillShare_nonneg l.ids
    rw [columnsOf_eq, h id mem filling]
    omega
  have fills : 0 < ((l.ids.filter t.isFill).length : Int) :=
    Int.natCast_pos.mpr (List.length_pos_iff.mpr filled)
  have split := columnSum_filter (t := t) t.isFill l.ids
  have share : fillShare c t l.ids =
      (c.gridColumns - t.columnSum (l.ids.filter fun id => !t.isFill id)) /
        (l.ids.filter t.isFill).length := by
    rw [fillShare, Int.max_eq_left (by omega)]
  have below := Int.mul_ediv_self_le (Int.ne_of_gt fills)
    (x := c.gridColumns - t.columnSum (l.ids.filter fun id => !t.isFill id))
  have above := Int.lt_mul_ediv_self_add fills
    (x := c.gridColumns - t.columnSum (l.ids.filter fun id => !t.isFill id))
  rw [← share, ← widths] at below above
  omega

theorem Balanced.of_not_layered {id : WidgetId} (unlayered : t.layersOf id = []) :
    t.Balanced c id :=
  fun _ hl => absurd (unlayered ▸ hl) List.not_mem_nil

end Shares

/-! ### Sharing a layer -/

section Sharing

variable (c : LayoutConfig)

theorem placeOf?_foldl_reposition (f : GridPosition → GridPosition) (idem : ∀ p, f (f p) = f p)
    (ids : List WidgetId) (t : WidgetTree) (x : WidgetId) :
    (ids.foldl (fun t id => t.reposition id f) t).placeOf? x =
      if x ∈ ids then (t.placeOf? x).map f else t.placeOf? x := by
  induction ids generalizing t with
  | nil => simp
  | cons id ids ih =>
    rw [List.foldl_cons, ih, placeOf?_reposition]
    by_cases own : id = x
    · have twice : f ∘ f = f := funext idem
      simp [own, twice]
    · simp [own, Ne.symm own]

/-- Sharing a layer sets the right edge of its filling widgets. -/
theorem placeOf?_shareColumns (t : WidgetTree) (l : FlexLayer) (x : WidgetId) :
    (t.shareColumns c l).placeOf? x =
      if l.hasFill = true ∧ x ∈ l.ids ∧ t.isFill x = true then
        (t.placeOf? x).map fun p => { p with rightColumn := p.leftColumn + fillShare c t l.ids }
      else t.placeOf? x := by
  unfold shareColumns
  by_cases filled : l.hasFill = true
  · rw [if_pos filled]
    refine (placeOf?_foldl_reposition
      (fun p => { p with rightColumn := p.leftColumn + fillShare c t l.ids }) (fun _ => rfl)
      _ t x).trans ?_
    simp only [List.mem_filter, filled, true_and]
  · rw [if_neg filled, if_neg fun h => filled h.1]

theorem placeOf?_shareColumns_of_not_mem {t : WidgetTree} {l : FlexLayer} {x : WidgetId}
    (hx : x ∉ l.ids) : (t.shareColumns c l).placeOf? x = t.placeOf? x := by
  rw [placeOf?_shareColumns, if_neg fun h => hx h.2.1]

theorem contains_of_isFill {t : WidgetTree} {id : WidgetId} (filling : t.isFill id = true) :
    t.contains id = true := by
  unfold isFill at filling
  split at filling
  · exact contains_iff.mpr ⟨_, ‹_›⟩
  · cases filling

/-- Sharing a layer leaves it shared when its fill flag is right. -/
theorem shares_shareColumns {t : WidgetTree} {l : FlexLayer}
    (flagged : t.fills l.children = l.hasFill) : (t.shareColumns c l).Shares c l := by
  have fill : ∀ id, (t.shareColumns c l).isFill id = t.isFill id := fun id =>
    ((alike_shareColumns c t l).isFill_eq id).symm
  intro id hid filling
  rw [fill] at filling
  have filled : l.hasFill = true := by
    rw [← flagged, fills, List.any_eq_true]
    obtain ⟨child, mem, rfl⟩ := List.mem_map.mp hid
    exact ⟨child, mem, filling⟩
  have share : fillShare c (t.shareColumns c l) l.ids = fillShare c t l.ids := by
    refine fillShare_congr (fun id _ => fill id) fun id _ hug => ?_
    rw [columnsOf_eq, columnsOf_eq, widthOf_congr]
    rw [placeOf?_shareColumns, if_neg fun h => by simp [hug] at h]
  obtain ⟨p, hp⟩ := exists_placeOf? (contains_of_isFill filling)
  rw [share, widthOf, placeOf?_shareColumns, if_pos ⟨filled, hid, filling⟩, hp]
  simp only [Option.map_some, Option.getD_some, GridPosition.columns]
  omega

/-- Sharing a layer leaves the layers shared that have none of its widgets. -/
theorem Shares.shareColumns {t : WidgetTree} {l l' : FlexLayer} (h : t.Shares c l')
    (apart : ∀ id ∈ l'.ids, id ∉ l.ids) : (t.shareColumns c l).Shares c l' :=
  h.congr (fun id _ => ((alike_shareColumns c t l).isFill_eq id).symm)
    fun id hid => .inl (widthOf_congr (placeOf?_shareColumns_of_not_mem c (apart id hid)))

/-- Sharing the layers of a container one by one. -/
theorem shareAll_eq (t : WidgetTree) (parent : WidgetId) : t.shareAll c parent =
    (t.layersOf parent).foldl (fun t l => t.shareColumns c l) t := by
  have run : ∀ n ≤ (t.layersOf parent).length,
      (List.range n).foldl (fun t i => t.shareLayer c parent i) t =
        ((t.layersOf parent).take n).foldl (fun t l => t.shareColumns c l) t := by
    intro n
    induction n with
    | zero => exact fun _ => rfl
    | succ n ih =>
      intro bound
      have alike := alike_foldl_tree (fun t i => alike_shareLayer c t parent i) (List.range n) t
      rw [List.range_succ, List.foldl_append, List.foldl_cons, List.foldl_nil, shareLayer,
        ← alike.layersOf_eq, List.getElem?_eq_getElem (by omega), ih (by omega),
        List.take_add_one, List.getElem?_eq_getElem (by omega), Option.toList_some,
        List.foldl_append]
      rfl
  rw [shareAll, run _ (Nat.le_refl _), List.take_length]

end Sharing

/-! ### Nothing to share -/

section Shared

variable {c : LayoutConfig} {t : WidgetTree}

theorem foldl_eq_self {α β : Type} {f : α → β → α} {a : α} {bs : List β}
    (same : ∀ b ∈ bs, f a b = a) : bs.foldl f a = a := by
  induction bs with
  | nil => rfl
  | cons b bs ih =>
    rw [List.foldl_cons, same b List.mem_cons_self]
    exact ih fun b hb => same b (List.mem_cons_of_mem _ hb)

/-- Widgets that have their share are not written. -/
theorem Shares.shareColumns_eq {l : FlexLayer} (h : t.Shares c l) : t.shareColumns c l = t := by
  unfold WidgetTree.shareColumns
  split
  · refine foldl_eq_self fun id hid => reposition_eq_self fun p hp => ?_
    obtain ⟨mem, filling⟩ := List.mem_filter.mp hid
    have width := h id mem filling
    rw [widthOf, hp, Option.map_some, Option.getD_some, GridPosition.columns] at width
    have edge : p.leftColumn + fillShare c t l.ids = p.rightColumn := by omega
    rw [edge]
  · rfl

theorem Balanced.shareLayer_eq {parent : WidgetId} (h : t.Balanced c parent) (index : Nat) :
    t.shareLayer c parent index = t := by
  unfold shareLayer
  split
  · exact (h _ (List.mem_of_getElem? ‹_›)).shareColumns_eq
  · rfl

theorem Balanced.shareAll_eq {parent : WidgetId} (h : t.Balanced c parent) :
    t.shareAll c parent = t :=
  foldl_eq_self fun index _ => h.shareLayer_eq index

end Shared

/-! ### Sharing a container -/

theorem fills_congr {t s : WidgetTree} (same : ∀ id, s.isFill id = t.isFill id)
    (children : List LayerChild) : s.fills children = t.fills children := by
  simp only [fills, same]

section Containers

variable (c : LayoutConfig) {t : WidgetTree} {parent id : WidgetId}

/-- Sharing layers one by one leaves all of them shared. -/
theorem shares_foldl_shareColumns {layers : List FlexLayer} (t : WidgetTree)
    (nodup : (Layers.flatten layers).Nodup)
    (flagged : ∀ l ∈ layers, t.fills l.children = l.hasFill) {l : FlexLayer}
    (shared : l ∈ layers ∨ t.Shares c l ∧ ∀ id ∈ l.ids, id ∉ Layers.flatten layers) :
    (layers.foldl (fun t l => t.shareColumns c l) t).Shares c l := by
  induction layers generalizing t with
  | nil => exact (shared.resolve_left List.not_mem_nil).1
  | cons first layers ih =>
    obtain ⟨-, rest, apart⟩ := List.nodup_append.mp nodup
    obtain ⟨own, flagged⟩ := List.forall_mem_cons.mp flagged
    refine ih _ rest (fun l hl => ?_) ?_
    · rw [fills_congr fun id => ((alike_shareColumns c t first).isFill_eq id).symm]
      exact flagged l hl
    · rcases shared with mem | ⟨shares, away⟩
      · rcases List.mem_cons.mp mem with rfl | mem
        · exact .inr ⟨shares_shareColumns c own, fun id hid hid' => apart id hid id hid' rfl⟩
        · exact .inl mem
      · simp only [Layers.flatten_cons, List.mem_append, not_or] at away
        exact .inr ⟨shares.shareColumns c fun id hid => (away id hid).1,
          fun id hid => (away id hid).2⟩

theorem placeOf?_foldl_shareColumns {layers : List FlexLayer} (t : WidgetTree) {x : WidgetId}
    (hx : x ∉ Layers.flatten layers) :
    (layers.foldl (fun t l => t.shareColumns c l) t).placeOf? x = t.placeOf? x := by
  induction layers generalizing t with
  | nil => rfl
  | cons l layers ih =>
    simp only [Layers.flatten_cons, List.mem_append, not_or] at hx
    rw [List.foldl_cons, ih _ hx.2, placeOf?_shareColumns_of_not_mem c hx.1]

/-- Sharing places no widget that is as wide as it is. -/
theorem placeOf?_shareAll_of_hug {x : WidgetId} (hug : t.isFill x = false) :
    (t.shareAll c parent).placeOf? x = t.placeOf? x := by
  rw [shareAll_eq]
  generalize t.layersOf parent = layers
  induction layers generalizing t with
  | nil => rfl
  | cons l layers ih =>
    rw [List.foldl_cons, ih ((alike_shareColumns c t l).isFill_eq x ▸ hug),
      placeOf?_shareColumns, if_neg fun h => by simp [hug] at h]

theorem placeOf?_shareAll (t : WidgetTree) {x : WidgetId}
    (hx : x ∉ Layers.flatten (t.layersOf parent)) :
    (t.shareAll c parent).placeOf? x = t.placeOf? x := by
  rw [shareAll_eq]
  exact placeOf?_foldl_shareColumns c t hx

/-- Sharing one layer of a container gives some of the widgets that fill it another right edge. -/
theorem placeOf?_shareLayer (t : WidgetTree) (parent : WidgetId) (index : Nat) (x : WidgetId) :
    (t.shareLayer c parent index).placeOf? x = t.placeOf? x ∨
      (t.isFill x = true ∧ x ∈ Layers.flatten (t.layersOf parent)) ∧
        ∃ columns, (t.shareLayer c parent index).placeOf? x =
          (t.placeOf? x).map fun p => { p with rightColumn := p.leftColumn + columns } := by
  unfold shareLayer
  split
  · rename_i l hl
    rw [placeOf?_shareColumns]
    split
    · rename_i shared
      have mem := List.mem_flatMap.mpr ⟨l, List.mem_of_getElem? hl, shared.2.1⟩
      exact .inr ⟨⟨shared.2.2, mem⟩, _, rfl⟩
    · exact .inl rfl
  · exact .inl rfl

/-- Sharing a container balances it, if its layers are in order. -/
theorem balanced_shareAll_of_flagged (nodup : (Layers.flatten (t.layersOf parent)).Nodup)
    (flagged : ∀ l ∈ t.layersOf parent, t.fills l.children = l.hasFill) :
    (t.shareAll c parent).Balanced c parent := by
  intro l hl
  rw [← (alike_shareAll c t parent).layersOf_eq] at hl
  rw [shareAll_eq]
  exact shares_foldl_shareColumns c t nodup flagged (.inl hl)

/-- Sharing a container balances it and keeps all others balanced. -/
theorem balanced_shareAll (tidy : t.Tidy) (others : id ≠ parent → t.Balanced c id) :
    (t.shareAll c parent).Balanced c id := by
  by_cases own : id = parent
  · subst own
    exact balanced_shareAll_of_flagged c (tidy.nodup_layers id) fun _ => tidy.flagged
  · have alike := alike_shareAll c t parent
    refine (others own).congr (alike.layersOf_eq id).symm (fun x _ => (alike.isFill_eq x).symm)
      fun x hx => .inl (widthOf_congr (placeOf?_shareAll c t fun hx' => ?_))
    exact own (tidy.sole_layers hx hx')

theorem widthOf_growContainer (t : WidgetTree) (canvas : WidgetId) (height : Int)
    (x : WidgetId) : (t.growContainer canvas height).widthOf x = t.widthOf x := by
  rcases t.placeOf?_growContainer canvas height x with same | ⟨-, grown⟩
  · exact widthOf_congr same
  · rw [widthOf, widthOf, grown, Option.map_map]
    rfl

theorem Balanced.growContainer (h : t.Balanced c id) (canvas : WidgetId) (height : Int) :
    (t.growContainer canvas height).Balanced c id := by
  have alike := alike_growContainer t canvas height
  exact h.congr (alike.layersOf_eq id).symm (fun x _ => (alike.isFill_eq x).symm)
    fun x _ => .inl (widthOf_growContainer t canvas height x)

/-- Laying a container out balances it and keeps all others balanced. -/
theorem balanced_layOut (tidy : t.Tidy) (others : id ≠ parent → t.Balanced c id) :
    (t.layOut c parent).Balanced c id :=
  (balanced_shareAll c tidy others).placed (placed_placeChildren c _ parent)

theorem balanced_rearrange (tidy : t.Tidy) (others : id ≠ parent → t.Balanced c id) :
    (t.rearrange c parent).Balanced c id :=
  (balanced_layOut c tidy others).growContainer c parent _

end Containers

end AppBuilder.WidgetTree
