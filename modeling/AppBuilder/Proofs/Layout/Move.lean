import AppBuilder.Proofs.Layout.Layer
import AppBuilder.Proofs.Layout.Place

/-!
Moving widgets keeps a tree well formed.

The widgets are handed over one by one; `Handed` tells what became of the tree when some of them
are through. In the end the target lists and arranges them, every other container is without
them, and since none of them is above the target, the ways up still end at the root
(`Rooted.reparent`). So a move creates no loop of parents.
-/

namespace AppBuilder

namespace WidgetTree

/-! ### Handing one widget over -/

/-- One widget taken out of its container and given a new parent. -/
def handedOne (t : WidgetTree) (moved : List WidgetId) (before parent m : WidgetId) : WidgetTree :=
  (t.dropChildren before [m] moved).modify m fun w => { w with parent := some parent }

section HandedOne

variable (t : WidgetTree) (moved : List WidgetId) (before parent m : WidgetId)

theorem kin_dropChildren : t.Kin (t.dropChildren before [m] moved) :=
  kin_modify (fun _ => rfl) fun _ => rfl

theorem kin_handedOne : t.Kin (t.handedOne moved before parent m) :=
  (kin_dropChildren t moved before m).trans (kin_modify (fun _ => rfl) fun _ => rfl)

theorem isFill_handedOne (id : WidgetId) :
    (t.handedOne moved before parent m).isFill id = t.isFill id := by
  rw [handedOne, isFill_modify, dropChildren, isFill_modify]
  · exact fun _ => rfl
  · exact fun _ => rfl

variable {t moved before parent m}

theorem parentOf?_handedOne (there : t.contains m = true) (id : WidgetId) :
    (t.handedOne moved before parent m).parentOf? id =
      if m = id then some parent else t.parentOf? id := by
  obtain ⟨w, hw⟩ := contains_iff.mp ((kin_dropChildren t moved before m).contains_eq m ▸ there)
  rw [handedOne, parentOf?_modify hw, dropChildren, parentOf?_modify_of_same]
  exact fun _ => rfl

theorem childrenOf_handedOne (there : t.contains before = true) (id : WidgetId) :
    (t.handedOne moved before parent m).childrenOf id =
      if before = id then (t.childrenOf id).filter (· ≠ m) else t.childrenOf id := by
  obtain ⟨w, hw⟩ := contains_iff.mp there
  rw [handedOne, childrenOf_modify_of_same, dropChildren, childrenOf_modify hw]
  · split
    · subst id
      rw [childrenOf_of_get? hw]
      exact List.filter_congr fun c _ => by simp
    · rfl
  · exact fun _ => rfl

theorem layersOf_handedOne (there : t.contains before = true) (id : WidgetId) :
    (t.handedOne moved before parent m).layersOf id =
      if before = id then Layers.without t moved (t.layersOf id) else t.layersOf id := by
  obtain ⟨w, hw⟩ := contains_iff.mp there
  rw [handedOne, layersOf_modify_of_same, dropChildren, layersOf_modify hw]
  · split
    · subst id
      rw [layersOf_of_get? hw]
    · rfl
  · exact fun _ => rfl

end HandedOne

/-! ### Handing all widgets over -/

/-- The tree with some of the moved widgets handed over to their new parent. -/
structure Handed (t : WidgetTree) (moved : List WidgetId) (parent : WidgetId)
    (done : List WidgetId) (s : WidgetTree) : Prop where
  kin : t.Kin s
  isFill_eq : ∀ id, s.isFill id = t.isFill id
  parentOf?_eq : ∀ id, s.parentOf? id = if id ∈ done then some parent else t.parentOf? id
  childrenOf_eq : ∀ id, s.childrenOf id =
    if id = parent then t.childrenOf id else (t.childrenOf id).filter fun c => !done.contains c
  layersOf_left : ∀ id, id ≠ parent → (∃ m ∈ done, t.Up m id) →
    s.layersOf id = Layers.without t moved (t.layersOf id)
  layersOf_kept : ∀ id, (id = parent ∨ ∀ m ∈ done, ¬ t.Up m id) → s.layersOf id = t.layersOf id

section Handing

variable {t : WidgetTree} {moved : List WidgetId} {parent : WidgetId} {done : List WidgetId}

theorem handed_nil (t : WidgetTree) (moved : List WidgetId) (parent : WidgetId) :
    Handed t moved parent [] t :=
  ⟨.refl t, fun _ => rfl, by simp, by simp, by simp, by simp⟩

theorem Handed.congr {s s' : WidgetTree} (h : Handed t moved parent done s) (alike : s.Alike s') :
    Handed t moved parent done s' where
  kin := h.kin.trans alike.kin
  isFill_eq id := alike.isFill_eq id ▸ h.isFill_eq id
  parentOf?_eq id := alike.parentOf?_eq id ▸ h.parentOf?_eq id
  childrenOf_eq id := alike.childrenOf_eq id ▸ h.childrenOf_eq id
  layersOf_left id := alike.layersOf_eq id ▸ h.layersOf_left id
  layersOf_kept id := alike.layersOf_eq id ▸ h.layersOf_kept id

/-- A widget that stays with its parent. -/
theorem Handed.stay (linked : t.Linked) {s : WidgetTree} (h : Handed t moved parent done s)
    {m : WidgetId} (up : t.Up m parent) : Handed t moved parent (done ++ [m]) s where
  kin := h.kin
  isFill_eq := h.isFill_eq
  parentOf?_eq id := by
    rw [h.parentOf?_eq]
    by_cases same : id = m
    · subst same
      simpa [Up] using fun _ => up
    · simp [same]
  childrenOf_eq id := by
    rw [h.childrenOf_eq]
    by_cases target : id = parent
    · simp [target]
    · rw [if_neg target, if_neg target]
      refine List.filter_congr fun c hc => ?_
      have other : c ≠ m := fun same => target ((linked.up_of_mem id c hc).unique (same ▸ up))
      simp [other]
  layersOf_left id target := by
    rintro ⟨m', hm', up'⟩
    rcases List.mem_append.mp hm' with hm' | hm'
    · exact h.layersOf_left id target ⟨m', hm', up'⟩
    · obtain rfl := List.mem_singleton.mp hm'
      exact absurd (up'.unique up) target
  layersOf_kept id kept := by
    refine h.layersOf_kept id (kept.imp_right fun apart m' hm' => ?_)
    exact apart m' (List.mem_append_left _ hm')

/-- A widget that leaves another container. -/
theorem Handed.leave (linked : t.Linked) {s : WidgetTree} (h : Handed t moved parent done s)
    {m before : WidgetId} (up : t.Up m before) (other : before ≠ parent) :
    Handed t moved parent (done ++ [m]) (s.handedOne moved before parent m) := by
  have there : s.contains m = true := h.kin.contains_eq m ▸ contains_of_parentOf? up
  have before_there : s.contains before = true :=
    h.kin.contains_eq before ▸ contains_of_mem_childrenOf (linked.mem_of_up _ _ up)
  have without : Layers.without s moved = Layers.without t moved := by
    funext layers
    exact (Layers.without_congr h.kin.contains_eq (fun id => (h.isFill_eq id).symm) _ _).symm
  have kin : t.Kin (s.handedOne moved before parent m) :=
    h.kin.trans (kin_handedOne s moved before parent m)
  refine ⟨kin, ?_, ?_, ?_, ?_, ?_⟩
  · intro id
    rw [isFill_handedOne, h.isFill_eq]
  · intro id
    rw [parentOf?_handedOne there, h.parentOf?_eq]
    by_cases same : m = id
    · simp [same]
    · simp [same, Ne.symm same]
  · intro id
    rw [childrenOf_handedOne before_there, h.childrenOf_eq]
    by_cases own : before = id
    · subst id
      simp [other, List.filter_filter, Bool.and_comm]
    · rw [if_neg own]
      by_cases target : id = parent
      · simp [target]
      · rw [if_neg target, if_neg target]
        refine List.filter_congr fun c hc => ?_
        have apart : c ≠ m := fun same => own (up.unique (same ▸ linked.up_of_mem id c hc))
        simp [apart]
  · intro id target left
    rw [layersOf_handedOne before_there, without]
    by_cases own : before = id
    · subst id
      rw [if_pos rfl]
      by_cases again : ∃ m ∈ done, t.Up m before
      · rw [h.layersOf_left before target again, Layers.without_without fun _ _ => id]
        exact Layers.without_ext (fun _ _ => by simp) fun _ _ _ _ => rfl
      · rw [h.layersOf_kept before (.inr fun m hm up => again ⟨m, hm, up⟩)]
    · rw [if_neg own]
      obtain ⟨m', hm', up'⟩ := left
      rcases List.mem_append.mp hm' with hm' | hm'
      · exact h.layersOf_left id target ⟨m', hm', up'⟩
      · obtain rfl := List.mem_singleton.mp hm'
        exact absurd (up.unique up') own
  · intro id kept
    have own : before ≠ id := by
      rintro rfl
      exact kept.elim other fun apart => apart m (by simp) up
    rw [layersOf_handedOne before_there, if_neg own]
    exact h.layersOf_kept id (kept.imp_right fun apart m' hm' => apart m' (by simp [hm']))

theorem Handed.handOver (linked : t.Linked) {s : WidgetTree × NameSet}
    (h : Handed t moved parent done s.1) {m before : WidgetId} (fresh : m ∉ done)
    (up : t.Up m before) : Handed t moved parent (done ++ [m]) (handOver moved parent s m).1 := by
  have recorded : s.1.parentOf? m = some before := by
    rw [h.parentOf?_eq, if_neg fresh]
    exact up
  simp only [WidgetTree.handOver, recorded]
  by_cases own : before = parent
  · rw [if_pos own]
    exact h.stay linked (own ▸ up)
  · rw [if_neg own]
    exact h.leave linked up own

theorem Handed.foldl (linked : t.Linked) {rest : List WidgetId} {s : WidgetTree × NameSet}
    (h : Handed t moved parent done s.1) (nodup : (done ++ rest).Nodup)
    (up : ∀ m ∈ rest, ∃ before, t.Up m before) :
    Handed t moved parent (done ++ rest) (rest.foldl (WidgetTree.handOver moved parent) s).1 := by
  induction rest generalizing done s with
  | nil => simpa using h
  | cons m rest ih =>
    obtain ⟨before, hbefore⟩ := up m List.mem_cons_self
    have fresh : m ∉ done := fun hm =>
      (List.nodup_append.mp nodup).2.2 m hm m List.mem_cons_self rfl
    rw [List.append_cons] at nodup ⊢
    refine ih (h.handOver linked fresh hbefore) nodup fun m' hm' => ?_
    exact up m' (List.mem_cons_of_mem _ hm')

/-- Handing all widgets over. -/
theorem handed_handOverAll (linked : t.Linked) (c : LayoutConfig) (nodup : moved.Nodup)
    (up : ∀ m ∈ moved, ∃ before, t.Up m before) (parent : WidgetId) :
    Handed t moved parent moved (t.handOverAll c moved parent) := by
  have all := Handed.foldl linked (s := (t, .empty)) (handed_nil t moved parent) nodup up
  rw [List.nil_append] at all
  refine all.congr (alike_foldl_tree (fun t id => ?_) _ _)
  exact (alike_shareAll c t id).trans (alike_placeChildren c _ id)

/-- The layers of a container other than the target arrange what it keeps. -/
theorem Handed.arranges_other {s : WidgetTree} (handed : Handed t moved parent moved s)
    (linked : t.Linked) {id : WidgetId} (other : id ≠ parent) (layered : s.layersOf id ≠ []) :
    t.layersOf id ≠ [] ∧
      t.Arranges (s.layersOf id) ((t.childrenOf id).filter fun c => !moved.contains c) := by
  by_cases left : ∃ m ∈ moved, t.Up m id
  · rw [handed.layersOf_left id other left] at layered ⊢
    have layered' : t.layersOf id ≠ [] := fun unlayered => layered (by rw [unlayered]; rfl)
    refine ⟨layered', .without (linked.arranged id layered').perm (fun c hc => ?_) moved⟩
    exact contains_of_parentOf? (linked.up_of_mem id c hc)
  · have apart : ∀ m ∈ moved, ¬ t.Up m id := fun m hm up => left ⟨m, hm, up⟩
    have all : (t.childrenOf id).filter (fun c => !moved.contains c) = t.childrenOf id :=
      List.filter_eq_self.mpr fun c hc => by
        simpa using fun hm => apart c hm (linked.up_of_mem id c hc)
    rw [handed.layersOf_kept id (.inr apart)] at layered ⊢
    rw [all]
    exact ⟨layered, linked.arranged id layered⟩

/-- The containers that the moved widgets leave are noted. -/
theorem Handed.mem_left (linked : t.Linked) {rest : List WidgetId} {s : WidgetTree × NameSet}
    (h : Handed t moved parent done s.1) (nodup : (done ++ rest).Nodup)
    (up : ∀ m ∈ rest, ∃ before, t.Up m before)
    (left : ∀ m ∈ done, ∀ id, t.Up m id → id ≠ parent → id ∈ s.2) :
    ∀ m ∈ done ++ rest, ∀ id, t.Up m id → id ≠ parent →
      id ∈ (rest.foldl (WidgetTree.handOver moved parent) s).2 := by
  induction rest generalizing done s with
  | nil => simpa using left
  | cons m rest ih =>
    obtain ⟨before, hbefore⟩ := up m List.mem_cons_self
    have fresh : m ∉ done := fun hm =>
      (List.nodup_append.mp nodup).2.2 m hm m List.mem_cons_self rfl
    have recorded : s.1.parentOf? m = some before := by
      rw [h.parentOf?_eq, if_neg fresh]
      exact hbefore
    rw [List.append_cons] at nodup ⊢
    refine ih (h.handOver linked fresh hbefore) nodup
      (fun m' hm' => up m' (List.mem_cons_of_mem _ hm')) fun m' hm' id hup other => ?_
    simp only [WidgetTree.handOver, recorded]
    rcases List.mem_append.mp hm' with hm' | hm'
    · have noted := left m' hm' id hup other
      split
      · exact noted
      · exact (NameSet.mem_insert _ _ _).mpr (.inr noted)
    · obtain rfl := List.mem_singleton.mp hm'
      obtain rfl := hup.unique hbefore
      rw [if_neg other]
      exact (NameSet.mem_insert _ _ _).mpr (.inl rfl)

/-- Nothing but the target ever gets a child. -/
theorem Handed.childrenOf_sublist {s : WidgetTree} (h : Handed t moved parent done s)
    (id : WidgetId) : (s.childrenOf id).Sublist (t.childrenOf id) := by
  rw [h.childrenOf_eq]
  split
  · exact .refl _
  · exact List.filter_sublist

/-- Layers arrange the children of every container once all widgets are handed over. -/
theorem Handed.tidy {s : WidgetTree} (handed : Handed t moved parent moved s) (h : t.WellFormed) :
    s.Tidy where
  arranged id layered := by
    rw [handed.childrenOf_eq]
    by_cases own : id = parent
    · rw [handed.layersOf_kept id (.inl own)] at layered ⊢
      rw [if_pos own]
      exact (h.linked.arranged id layered).congr fun x _ => (handed.isFill_eq x).symm
    · have arranged := (handed.arranges_other h.linked own layered).2
      rw [if_neg own]
      exact arranged.congr fun x _ => (handed.isFill_eq x).symm
  nodup id := (h.nodup id).sublist (handed.childrenOf_sublist id)
  there id x hx :=
    handed.kin.contains_eq x ▸ h.tidy.there id x ((handed.childrenOf_sublist id).subset hx)
  sole id id' x hx hx' := h.tidy.sole id id' x ((handed.childrenOf_sublist id).subset hx)
    ((handed.childrenOf_sublist id').subset hx')

end Handing

/-! ### Ways up after a move -/

/-- Widgets that are not above a container can be put into it: all ways up still end at the
root. -/
theorem Rooted.reparent {t t' : WidgetTree} (h : t.Rooted) (kin : t.Kin t')
    {moved : List WidgetId} {parent : WidgetId}
    (parents : ∀ id, t'.parentOf? id = if id ∈ moved then some parent else t.parentOf? id)
    (there : t.contains parent = true)
    (apart : ∀ m ∈ moved, ¬ Relation.ReflTransGen t.Up parent m) : t'.Rooted := by
  obtain ⟨root, top, chains⟩ := h
  have kept : ∀ x, x ∉ moved → t'.parentOf? x = t.parentOf? x := by
    intro x hx
    rw [parents, if_neg hx]
  -- the way up from the target meets no moved widget
  have fromParent : Relation.ReflTransGen t'.Up parent root :=
    up_path_congr (chains parent there) fun x path => kept x fun hx => apart x hx path
  have rootStays : root ∉ moved := fun hm => apart root hm (chains parent there)
  have rootTop := (top root).mpr rfl
  refine rooted_of_chains (kin.contains_eq root ▸ rootTop.1)
    ((kept root rootStays).trans rootTop.2) fun id hid => ?_
  have path := chains id (kin.contains_eq id ▸ hid)
  clear hid
  induction path using Relation.ReflTransGen.head_induction_on with
  | refl => exact .refl
  | @head id p step _ ih =>
    by_cases hm : id ∈ moved
    · have up : t'.Up id parent := by rw [Up, parents, if_pos hm]
      exact .head up fromParent
    · exact .head ((kept id hm).trans step) ih

/-- A widget that is not above a container is not the root. -/
theorem Rooted.exists_up {t : WidgetTree} (h : t.Rooted) {parent m : WidgetId}
    (target : t.contains parent = true) (there : t.contains m = true)
    (apart : ¬ Relation.ReflTransGen t.Up parent m) : ∃ before, t.Up m before := by
  obtain ⟨root, top, chains⟩ := h
  refine Option.ne_none_iff_exists'.mp fun alone => ?_
  obtain rfl := (top m).mp ⟨there, alone⟩
  exact apart (chains parent target)

/-! ### Settling in -/

/-- Widgets that fit a target: they are there and not above it, and it is a canvas that has layers
or no other children if it is to stack them. -/
structure Fits (t : WidgetTree) (moved : List WidgetId) (d : DropTarget) : Prop where
  nonempty : moved ≠ []
  nodup : moved.Nodup
  there : ∀ m ∈ moved, t.contains m = true
  apart : ∀ m ∈ moved, ¬ Relation.ReflTransGen t.Up d.parent m
  canvas : t.IsCanvas d.parent
  free : d.direction = .vertical → t.layersOf d.parent = [] → ∀ c ∈ t.childrenOf d.parent, c ∈ moved

theorem Fits.target {t : WidgetTree} {moved : List WidgetId} {d : DropTarget}
    (fits : t.Fits moved d) : t.contains d.parent = true := by
  obtain ⟨w, hw, -⟩ := fits.canvas
  exact contains_iff.mpr ⟨w, hw⟩

theorem Fits.exists_up {t : WidgetTree} {moved : List WidgetId} {d : DropTarget}
    (fits : t.Fits moved d) (rooted : t.Rooted) : ∀ m ∈ moved, ∃ before, t.Up m before :=
  fun m hm => rooted.exists_up fits.target (fits.there m hm) (fits.apart m hm)

section Settling

variable {t s : WidgetTree} {moved : List WidgetId} {d : DropTarget}
  (handed : Handed t moved d.parent moved s)
include handed

theorem Handed.kin_settle : t.Kin (s.settle moved d) :=
  handed.kin.trans (kin_modify (fun _ => rfl) fun _ => rfl)

theorem Handed.isFill_settle (id : WidgetId) : (s.settle moved d).isFill id = t.isFill id := by
  rw [settle, isFill_modify, handed.isFill_eq]
  exact fun _ => rfl

theorem Handed.parentOf?_settle (id : WidgetId) : (s.settle moved d).parentOf? id =
    if id ∈ moved then some d.parent else t.parentOf? id := by
  rw [settle, parentOf?_modify_of_same, handed.parentOf?_eq]
  exact fun _ => rfl

/-- The target lists the moved widgets at their place among those that it keeps. -/
theorem Handed.childrenOf_settle (target : t.contains d.parent = true) (id : WidgetId) :
    (s.settle moved d).childrenOf id = if d.parent = id then
        insertAt d.index moved ((t.childrenOf id).filter fun c => !moved.contains c)
      else (t.childrenOf id).filter fun c => !moved.contains c := by
  obtain ⟨w, hw⟩ := contains_iff.mp (handed.kin.contains_eq d.parent ▸ target)
  rw [settle, childrenOf_modify hw]
  by_cases own : d.parent = id
  · subst own
    have children : w.children = t.childrenOf d.parent := by
      rw [← childrenOf_of_get? hw, handed.childrenOf_eq, if_pos rfl]
    rw [if_pos rfl, if_pos rfl, children]
  · rw [if_neg own, if_neg own, handed.childrenOf_eq, if_neg (Ne.symm own)]

/-- The target lists the moved widgets besides those that it keeps, and nothing else does. -/
theorem Handed.perm_childrenOf_settle (target : t.contains d.parent = true) (id : WidgetId) :
    ((s.settle moved d).childrenOf id).Perm ((if d.parent = id then moved else []) ++
      (t.childrenOf id).filter fun c => !moved.contains c) := by
  rw [handed.childrenOf_settle target]
  split
  · exact perm_insertAt _ _ _
  · exact .refl _

theorem Handed.nodup_settle (nodup : ∀ id, (t.childrenOf id).Nodup) (once : moved.Nodup)
    (target : t.contains d.parent = true) (id : WidgetId) :
    ((s.settle moved d).childrenOf id).Nodup := by
  rw [(handed.perm_childrenOf_settle target id).nodup_iff]
  have rest := (nodup id).filter fun c => !moved.contains c
  split
  · refine List.nodup_append.mpr ⟨once, rest, ?_⟩
    rintro m hm c hc rfl
    simp [hm] at hc
  · simpa using rest

theorem Handed.layersOf_settle (target : t.contains d.parent = true) (id : WidgetId) :
    (s.settle moved d).layersOf id =
      if d.parent = id then s.layersAfter moved d else s.layersOf id := by
  obtain ⟨w, hw⟩ := contains_iff.mp (handed.kin.contains_eq d.parent ▸ target)
  exact layersOf_modify hw id

/-- The layers of the target arrange what it keeps and what came. -/
theorem Handed.arranges_target (linked : t.Linked) (fits : t.Fits moved d)
    (layered : s.layersAfter moved d ≠ []) : s.Arranges (s.layersAfter moved d)
      (moved ++ (t.childrenOf d.parent).filter fun c => !moved.contains c) := by
  have children : s.childrenOf d.parent = t.childrenOf d.parent := by
    rw [handed.childrenOf_eq, if_pos rfl]
  have layers : s.layersOf d.parent = t.layersOf d.parent :=
    handed.layersOf_kept d.parent (.inl rfl)
  rw [← children]
  refine arranges_layersAfter fits.nonempty ?_ ?_ ?_
    ?_ layered
  · intro m hm
    exact handed.kin.contains_eq m ▸ fits.there m hm
  · intro c hc
    have up := linked.up_of_mem d.parent c (children ▸ hc)
    exact handed.kin.contains_eq c ▸ contains_of_parentOf? up
  · intro layered
    rw [children, layers]
    exact (linked.arranged d.parent (layers ▸ layered)).perm
  · intro vertical bare
    rw [children]
    exact fits.free vertical (layers ▸ bare)

theorem Handed.linked_settle (linked : t.Linked) (fits : t.Fits moved d)
    (target : t.contains d.parent = true) : (s.settle moved d).Linked := by
  have children := handed.perm_childrenOf_settle target
  refine ⟨?_, ?_, ?_⟩
  · intro p c hc
    rw [Up, handed.parentOf?_settle]
    rcases List.mem_append.mp ((children p).mem_iff.mp hc) with hm | kept
    · split at hm
      · subst p
        rw [if_pos hm]
      · simp at hm
    · obtain ⟨before, stays⟩ := List.mem_filter.mp kept
      rw [if_neg (by simpa using stays)]
      exact linked.up_of_mem p c before
  · intro p c up
    rw [Up, handed.parentOf?_settle] at up
    refine (children p).mem_iff.mpr (List.mem_append.mpr ?_)
    by_cases hm : c ∈ moved
    · rw [if_pos hm] at up
      rw [if_pos (Option.some.inj up)]
      exact .inl hm
    · rw [if_neg hm] at up
      exact .inr (List.mem_filter.mpr ⟨linked.mem_of_up p c up, by simpa using hm⟩)
  · intro id layered
    refine Arranges.of_perm ?_ (children id).symm
    rw [handed.layersOf_settle target] at layered ⊢
    by_cases own : d.parent = id
    · subst own
      rw [if_pos rfl] at layered ⊢
      rw [if_pos rfl]
      refine (handed.arranges_target linked fits layered).congr fun c _ => ?_
      exact (handed.isFill_eq c).trans (handed.isFill_settle c).symm
    · rw [if_neg own] at layered ⊢
      rw [if_neg own, List.nil_append]
      have arranged := (handed.arranges_other linked (Ne.symm own) layered).2
      exact arranged.congr fun c _ => (handed.isFill_settle c).symm

/-- The moved widgets settle into the target once they are handed over. -/
theorem WellFormed.settle (h : t.WellFormed) (fits : t.Fits moved d) :
    (s.settle moved d).WellFormed := by
  have kin := handed.kin_settle
  have target := fits.target
  refine .of_linked (kin.keyed h.keyed) ?_ (handed.linked_settle h.linked fits target)
    (h.rooted.reparent kin handed.parentOf?_settle target fits.apart) fun id layered =>
      kin.isCanvas ?_
  · exact handed.nodup_settle h.nodup fits.nodup target
  · rw [handed.layersOf_settle target] at layered
    by_cases own : d.parent = id
    · exact own ▸ fits.canvas
    · rw [if_neg own] at layered
      exact h.layered id (handed.arranges_other h.linked (Ne.symm own) layered).1

end Settling

/-! ### Moving -/

/-- What a move asks of its selection and its target: no widget is named twice, and the target is
a canvas or missing. If it stacks layers, it has some already or no children but those moved. -/
structure Droppable (t : WidgetTree) (selection : List WidgetId) (d : DropTarget) : Prop where
  nodup : selection.Nodup
  canvas : t.contains d.parent = true → t.IsCanvas d.parent
  free : d.direction = .vertical → t.layersOf d.parent = [] →
    ∀ c ∈ t.childrenOf d.parent, c ∈ selection

instance (t : WidgetTree) (selection : List WidgetId) (d : DropTarget) :
    Decidable (t.Droppable selection d) :=
  decidable_of_iff (selection.Nodup ∧ (t.contains d.parent = true → t.IsCanvas d.parent) ∧
    (d.direction = .vertical → t.layersOf d.parent = [] →
      ∀ c ∈ t.childrenOf d.parent, c ∈ selection))
    ⟨fun ⟨nodup, canvas, free⟩ => ⟨nodup, canvas, free⟩, fun h => ⟨h.nodup, h.canvas, h.free⟩⟩

theorem mem_movable_iff (t : WidgetTree) (selection : List WidgetId) (parent m : WidgetId) :
    m ∈ t.movable selection parent ↔
      m ∈ selection ∧ t.contains m = true ∧ ¬ Relation.ReflTransGen t.Up parent m := by
  rw [movable, List.mem_filter, Bool.and_eq_true, Bool.not_eq_true', ← isAncestorOrSelf_iff,
    Bool.not_eq_true]

/-- What a move takes along fits the target. -/
theorem WellFormed.fits_movable {t : WidgetTree} (h : t.WellFormed) {selection : List WidgetId}
    {d : DropTarget} (droppable : t.Droppable selection d) (target : t.contains d.parent = true)
    (nonempty : t.movable selection d.parent ≠ []) : t.Fits (t.movable selection d.parent) d := by
  have mem := mem_movable_iff t selection d.parent
  exact
    { nonempty
      nodup := droppable.nodup.filter _
      there := fun m hm => ((mem m).mp hm).2.1
      apart := fun m hm => ((mem m).mp hm).2.2
      canvas := droppable.canvas target
      free := by
        intro vertical bare child hc
        have up := h.linked.up_of_mem d.parent child hc
        have selected := droppable.free vertical bare child hc
        refine (mem child).mpr ⟨selected, contains_of_parentOf? up, fun path => ?_⟩
        exact h.rooted.not_up_self child (.head' up path) }

theorem moveTo_of_movable {t : WidgetTree} (c : LayoutConfig) {selection : List WidgetId}
    {d : DropTarget} (target : t.contains d.parent = true)
    (nonempty : t.movable selection d.parent ≠ []) : t.moveTo c selection d =
      ((t.handOverAll c (t.movable selection d.parent) d.parent).settle
        (t.movable selection d.parent) d).rearrange c d.parent := by
  unfold WidgetTree.moveTo
  rw [if_pos target]
  split
  · exact absurd ‹_› nonempty
  · rfl

/-- A move of widgets that can be dropped changes nothing, or those that fit are handed over and
settle in. -/
theorem WellFormed.moveTo_cases {t : WidgetTree} (h : t.WellFormed) (c : LayoutConfig)
    {selection : List WidgetId} {d : DropTarget} (droppable : t.Droppable selection d) :
    t.moveTo c selection d = t ∨ ∃ moved, t.Fits moved d ∧ t.moveTo c selection d =
      ((t.handOverAll c moved d.parent).settle moved d).rearrange c d.parent := by
  by_cases target : t.contains d.parent = true
  · cases chosen : t.movable selection d.parent with
    | nil =>
      refine .inl ?_
      unfold WidgetTree.moveTo
      rw [if_pos target, chosen]
    | cons first rest =>
      have nonempty : t.movable selection d.parent ≠ [] := by simp [chosen]
      exact .inr ⟨_, h.fits_movable droppable target nonempty, moveTo_of_movable c target nonempty⟩
  · unfold WidgetTree.moveTo
    rw [if_neg target]
    exact .inl rfl

/-- Moving widgets keeps a tree well formed. -/
theorem WellFormed.moveTo {t : WidgetTree} (h : t.WellFormed) (c : LayoutConfig)
    {selection : List WidgetId} {d : DropTarget} (droppable : t.Droppable selection d) :
    (t.moveTo c selection d).WellFormed := by
  rcases h.moveTo_cases c droppable with same | ⟨moved, fits, result⟩
  · rwa [same]
  · have handed := handed_handOverAll h.linked c fits.nodup (fits.exists_up h.rooted) d.parent
    rw [result]
    exact WellFormed.congr (alike_rearrange c _ d.parent) (h.settle handed fits)

end WidgetTree

end AppBuilder
