import AppBuilder.Proofs.Layout.Columns

/-!
Arranging for a narrow screen and for a wide one again.

Both passes visit what vertical stacks lay out below a widget (`Lays`). The first one moves both
edges of the filling widgets there, the second one their right edges only, by the share of their
layer (`placeOf?_stretchBelow`, `placeOf?_shareBelow`). Shares depend on the widgets that do not
fill, which stay. So in a tree that is laid out every widget gets its width back, but a filling one
starts in the first column of its row, wherever it stood before.

Main statement: `placeOf?_desktop_after_mobile`.
-/

namespace AppBuilder.WidgetTree

/-! ### Setting places -/

/-- A place is set by a function when a condition holds, and kept otherwise. -/
structure SetIf (f : GridPosition → GridPosition) (P : Prop) (old new : Option GridPosition) :
    Prop where
  set : P → new = old.map f
  kept : ¬ P → new = old

namespace SetIf

variable {f : GridPosition → GridPosition} {P Q : Prop} {a b d : Option GridPosition}

theorem of_not (no : ¬ P) (same : b = a) : SetIf f P a b := ⟨fun p => absurd p no, fun _ => same⟩

theorem congr (h : SetIf f P a b) (iff : P ↔ Q) : SetIf f Q a b :=
  ⟨fun q => h.set (iff.mpr q), fun no => h.kept fun p => no (iff.mp p)⟩

/-- Setting a place twice by a function that settles it is setting it once. -/
theorem trans (idem : ∀ p, f (f p) = f p) (h : SetIf f P a b) (h' : SetIf f Q b d) :
    SetIf f (P ∨ Q) a d := by
  have twice : f ∘ f = f := funext idem
  refine ⟨fun either => ?_, fun neither => ?_⟩
  · by_cases q : Q
    · rw [h'.set q]
      by_cases p : P
      · rw [h.set p, Option.map_map, twice]
      · rw [h.kept p]
    · rw [h'.kept q, h.set (either.resolve_right q)]
  · rw [h'.kept fun q => neither (.inr q), h.kept fun p => neither (.inl p)]

/-- A loop sets a place when one of its steps does. -/
theorem foldl {β : Type} {step : WidgetTree → β → WidgetTree} {I : WidgetTree → Prop}
    {Q : β → Prop} (idem : ∀ p, f (f p) = f p) {x : WidgetId}
    (keeps : ∀ s b, I s → I (step s b))
    (sets : ∀ s b, I s → SetIf f (Q b) (s.placeOf? x) ((step s b).placeOf? x))
    (bs : List β) {s : WidgetTree} (holds : I s) :
    SetIf f (∃ b ∈ bs, Q b) (s.placeOf? x) ((bs.foldl step s).placeOf? x) := by
  induction bs generalizing s with
  | nil => exact .of_not (by simp) rfl
  | cons b bs ih =>
    exact ((sets s b holds).trans idem (ih (keeps s b holds))).congr (by simp)

end SetIf

/-! ### What stacks lay out -/

/-- A vertical stack lays out its children. -/
def Lays (t : WidgetTree) (parent x : WidgetId) : Prop := x ∈ t.stackedChildren parent

/-- A widget is laid out below another one within a number of steps. -/
def LaidWithin (t : WidgetTree) : Nat → WidgetId → WidgetId → Prop
  | 0, _, _ => False
  | n + 1, parent, x => ∃ child ∈ t.stackedChildren parent, child = x ∨ LaidWithin t n child x

section Stacks

variable {t s : WidgetTree}

theorem Alike.stackedChildren_eq (h : t.Alike s) (id : WidgetId) :
    t.stackedChildren id = s.stackedChildren id := by
  have same := h.map_eq (β := List WidgetId)
    (fun w => if w.isVerticalStack then w.children else []) (fun _ => rfl) id
  simp only [stackedChildren]
  cases ht : t.get? id <;> cases hs : s.get? id <;> simp_all

theorem Alike.lays_iff (h : t.Alike s) {parent x : WidgetId} :
    t.Lays parent x ↔ s.Lays parent x := by
  rw [Lays, Lays, h.stackedChildren_eq]

theorem Alike.laidWithin_iff (h : t.Alike s) (n : Nat) {parent x : WidgetId} :
    t.LaidWithin n parent x ↔ s.LaidWithin n parent x := by
  induction n generalizing parent with
  | zero => exact .rfl
  | succ n ih => simp only [LaidWithin, h.stackedChildren_eq, ih]

theorem mem_childrenOf_of_lays {parent x : WidgetId} (lays : t.Lays parent x) :
    x ∈ t.childrenOf parent := by
  unfold Lays stackedChildren at lays
  cases hw : t.get? parent with
  | none => simp [hw] at lays
  | some w =>
    simp only [hw] at lays
    split at lays
    · rwa [childrenOf_of_get? hw]
    · cases lays

theorem transGen_of_laidWithin {n : Nat} {parent x : WidgetId} (laid : t.LaidWithin n parent x) :
    Relation.TransGen t.Lays parent x := by
  induction n generalizing parent with
  | zero => exact laid.elim
  | succ n ih =>
    obtain ⟨child, lays, rfl | below⟩ := laid
    · exact .single lays
    · exact .head lays (ih below)

/-- On a way down no widget is met twice, so it is not longer than there are widgets. -/
theorem laidWithin_of_transGen (h : t.WellFormed) {parent x : WidgetId}
    (path : Relation.TransGen t.Lays parent x) (seen : List WidgetId) (nodup : seen.Nodup)
    (known : ∀ s ∈ seen, t.contains s = true)
    (above : ∀ s ∈ seen, Relation.TransGen t.Up parent s) :
    t.LaidWithin (t.size + 1 - seen.length) parent x := by
  have up : ∀ {p c}, t.Lays p c → t.Up c p := fun lays =>
    h.linked.up_of_mem _ _ (mem_childrenOf_of_lays lays)
  induction path using Relation.TransGen.head_induction_on generalizing seen with
  | single lays =>
    have room : t.size + 1 - seen.length = t.size - seen.length + 1 := by
      have := length_le_size nodup known
      omega
    rw [room]
    exact ⟨x, lays, .inl rfl⟩
  | @head parent child lays _ ih =>
    have fresh : parent ∉ seen := fun hs => h.rooted.not_up_self parent (above parent hs)
    have nodup' : (parent :: seen).Nodup := List.nodup_cons.mpr ⟨fresh, nodup⟩
    have known' : ∀ s ∈ parent :: seen, t.contains s = true := List.forall_mem_cons.mpr
      ⟨contains_of_mem_childrenOf (mem_childrenOf_of_lays lays), known⟩
    have above' : ∀ s ∈ parent :: seen, Relation.TransGen t.Up child s := List.forall_mem_cons.mpr
      ⟨.single (up lays), fun s hs => .head (up lays) (above s hs)⟩
    have room : t.size + 1 - seen.length = t.size + 1 - (parent :: seen).length + 1 := by
      have := length_le_size nodup' known'
      simp only [List.length_cons] at this ⊢
      omega
    rw [room]
    exact ⟨child, lays, .inr (ih (parent :: seen) nodup' known' above')⟩

theorem laidWithin_iff (h : t.WellFormed) {parent x : WidgetId} :
    t.LaidWithin (t.size + 1) parent x ↔ Relation.TransGen t.Lays parent x :=
  ⟨transGen_of_laidWithin, fun path => laidWithin_of_transGen h path [] .nil (by simp) (by simp)⟩

end Stacks

/-! ### Refitted widgets -/

/-- Two trees that differ in the places of filling widgets only. -/
structure Refitted (t s : WidgetTree) : Prop where
  alike : t.Alike s
  hug : ∀ x, t.isFill x = false → s.placeOf? x = t.placeOf? x

namespace Refitted

variable {t s r : WidgetTree} (c : LayoutConfig)

theorem refl (t : WidgetTree) : t.Refitted t := ⟨.refl t, fun _ _ => rfl⟩

theorem trans (h : t.Refitted s) (h' : s.Refitted r) : t.Refitted r :=
  ⟨h.alike.trans h'.alike, fun x hug =>
    (h'.hug x ((h.alike.isFill_eq x).symm.trans hug)).trans (h.hug x hug)⟩

theorem foldl {β : Type} {f : WidgetTree → β → WidgetTree}
    (step : ∀ (s : WidgetTree) b, s.Refitted (f s b)) (bs : List β) (s : WidgetTree) :
    s.Refitted (bs.foldl f s) := by
  induction bs generalizing s with
  | nil => exact .refl s
  | cons b bs ih => exact (step s b).trans (ih (f s b))

/-- Shares do not depend on the filling widgets. -/
theorem fillShare_eq (h : t.Refitted s) (ids : List WidgetId) :
    fillShare c s ids = fillShare c t ids :=
  fillShare_congr (fun id _ => (h.alike.isFill_eq id).symm) fun id _ hug => by
    rw [columnsOf_eq, columnsOf_eq, widthOf_congr (h.hug id hug)]

theorem shareColumns (t : WidgetTree) (l : FlexLayer) : t.Refitted (t.shareColumns c l) where
  alike := alike_shareColumns c t l
  hug x hug := by rw [placeOf?_shareColumns, if_neg fun h => by simp [hug] at h]

theorem shareAll (t : WidgetTree) (parent : WidgetId) : t.Refitted (t.shareAll c parent) := by
  rw [shareAll_eq]
  exact foldl (fun t l => shareColumns c t l) _ t

theorem shareBelow (depth : Nat) (t : WidgetTree) (parent : WidgetId) :
    t.Refitted (shareBelow c depth t parent) := by
  induction depth generalizing t parent with
  | zero => exact .refl t
  | succ depth ih =>
    unfold WidgetTree.shareBelow
    split
    · exact .refl t
    · exact (shareAll c t parent).trans (foldl ih _ _)

end Refitted

/-! ### Narrow screens -/

section Screens

variable (c : LayoutConfig) {t s : WidgetTree}

/-- All columns of a row. -/
def fullRow (p : GridPosition) : GridPosition :=
  { p with leftColumn := 0, rightColumn := c.gridColumns }

theorem fullRow_fullRow (p : GridPosition) : fullRow c (fullRow c p) = fullRow c p := rfl

/-- What arranging a stack for a narrow screen does with one child. -/
def stretchChild (n : Nat) (t : WidgetTree) (child : WidgetId) : WidgetTree :=
  if (stretchBelow c n t child).isFill child then
    (stretchBelow c n t child).reposition child (fullRow c)
  else stretchBelow c n t child

theorem stretchBelow_succ (n : Nat) (t : WidgetTree) (parent : WidgetId) :
    stretchBelow c (n + 1) t parent = (t.stackedChildren parent).foldl (stretchChild c n) t := rfl

theorem alike_stretchChild (n : Nat) (t : WidgetTree) (child : WidgetId) :
    t.Alike (stretchChild c n t child) := by
  unfold stretchChild
  split
  · exact (alike_stretchBelow c t n child).trans (alike_reposition _ child _)
  · exact alike_stretchBelow c t n child

theorem placeOf?_stretchChild (n : Nat) (t : WidgetTree) (child x : WidgetId) :
    SetIf (fullRow c) (t.isFill x = true ∧ child = x) ((stretchBelow c n t child).placeOf? x)
      ((stretchChild c n t child).placeOf? x) := by
  unfold stretchChild
  rw [← (alike_stretchBelow c t n child).isFill_eq]
  by_cases filling : t.isFill child = true
  · rw [if_pos filling, placeOf?_reposition]
    refine ⟨fun h => if_pos h.2, fun h => if_neg ?_⟩
    rintro rfl
    exact h ⟨filling, rfl⟩
  · rw [if_neg filling]
    exact .of_not (fun h => filling (h.2 ▸ h.1)) rfl

/-- Arranging for a narrow screen gives filling widgets that are laid out a row each. -/
theorem placeOf?_stretchBelow (n : Nat) (t : WidgetTree) (parent x : WidgetId) :
    SetIf (fullRow c) (t.isFill x = true ∧ t.LaidWithin n parent x) (t.placeOf? x)
      ((stretchBelow c n t parent).placeOf? x) := by
  induction n generalizing t parent with
  | zero => exact .of_not (fun h => h.2) rfl
  | succ n ih =>
    have step : ∀ (s : WidgetTree) (child : WidgetId), t.Alike s →
        SetIf (fullRow c) (t.isFill x = true ∧ (child = x ∨ t.LaidWithin n child x))
          (s.placeOf? x) ((stretchChild c n s child).placeOf? x) := by
      intro s child alike
      refine ((ih s child).trans (fullRow_fullRow c) (placeOf?_stretchChild c n s child x)).congr ?_
      rw [← alike.isFill_eq, ← alike.laidWithin_iff n]
      tauto
    rw [stretchBelow_succ]
    refine (SetIf.foldl (I := t.Alike) (fullRow_fullRow c)
      (fun s child alike => alike.trans (alike_stretchChild c n s child)) step
      (t.stackedChildren parent) (Alike.refl t)).congr ?_
    simp only [LaidWithin]
    constructor
    · rintro ⟨child, lays, filling, below⟩
      exact ⟨filling, child, lays, below⟩
    · rintro ⟨filling, child, lays, below⟩
      exact ⟨child, lays, filling, below⟩

theorem refitted_arrangeMobile (t : WidgetTree) (root : WidgetId) :
    t.Refitted (t.arrangeMobile c root) where
  alike := alike_stretchBelow c t _ root
  hug x hug := (placeOf?_stretchBelow c _ t root x).kept fun h => by simp [hug] at h

theorem placeOf?_arrangeMobile (wellFormed : t.WellFormed) (root x : WidgetId) :
    SetIf (fullRow c) (t.isFill x = true ∧ Relation.TransGen t.Lays root x) (t.placeOf? x)
      ((t.arrangeMobile c root).placeOf? x) :=
  (placeOf?_stretchBelow c _ t root x).congr (and_congr_right' (laidWithin_iff wellFormed))

/-! ### Wide screens -/

/-- As many columns as given, from the left edge on. -/
def fit (share : Int) (p : GridPosition) : GridPosition :=
  { p with rightColumn := p.leftColumn + share }

theorem fit_fit (share : Int) (p : GridPosition) : fit share (fit share p) = fit share p := rfl

/-- Sharing layers one by one gives each filling widget the share of its own. -/
theorem placeOf?_foldl_shareColumns_of_mem {layers : List FlexLayer}
    (nodup : (Layers.flatten layers).Nodup) {l : FlexLayer} (hl : l ∈ layers) {x : WidgetId}
    (hx : x ∈ l.ids) (flagged : s.isFill x = true → l.hasFill = true) :
    SetIf (fit (fillShare c s l.ids)) (s.isFill x = true) (s.placeOf? x)
      ((layers.foldl (fun t l => t.shareColumns c l) s).placeOf? x) := by
  induction layers generalizing s with
  | nil => cases hl
  | cons first layers ih =>
    obtain ⟨-, rest, apart⟩ := List.nodup_append.mp nodup
    rcases List.mem_cons.mp hl with rfl | hl
    · rw [List.foldl_cons, placeOf?_foldl_shareColumns c _ fun later => apart x hx x later rfl,
        placeOf?_shareColumns]
      exact ⟨fun filling => if_pos ⟨flagged filling, hx, filling⟩,
        fun hug => if_neg fun h => hug h.2.2⟩
    · have refitted := Refitted.shareColumns c s first
      have away : x ∉ first.ids := fun early =>
        apart x early x (List.mem_flatMap.mpr ⟨l, hl, hx⟩) rfl
      have later := ih (s := s.shareColumns c first) rest hl
        (by rwa [← refitted.alike.isFill_eq])
      rwa [refitted.fillShare_eq, ← refitted.alike.isFill_eq,
        placeOf?_shareColumns_of_not_mem c away] at later

variable (tidy : t.Tidy) {id : WidgetId} {l : FlexLayer} (hl : l ∈ t.layersOf id) {x : WidgetId}
  (hx : x ∈ l.ids)
include tidy hl hx

/-- A stack that is shared again sets the filling widgets of its layers. -/
theorem placeOf?_shareAll_of_stack (refitted : t.Refitted s) {parent : WidgetId}
    (stack : t.stackedChildren parent ≠ []) :
    SetIf (fit (fillShare c t l.ids)) (t.isFill x = true ∧ t.Lays parent x) (s.placeOf? x)
      ((s.shareAll c parent).placeOf? x) := by
  have alike := refitted.alike
  have mem : x ∈ Layers.flatten (t.layersOf id) := List.mem_flatMap.mpr ⟨l, hl, hx⟩
  have child := tidy.mem_childrenOf mem
  by_cases own : id = parent
  · subst own
    have lays : t.Lays id x := by
      unfold Lays stackedChildren at *
      cases hw : t.get? id with
      | none => simp [hw] at stack
      | some w =>
        simp only [hw] at stack ⊢
        by_cases vertical : w.isVerticalStack = true
        · rw [if_pos vertical]
          rwa [childrenOf_of_get? hw] at child
        · simp [vertical] at stack
    have flagged : s.isFill x = true → l.hasFill = true := by
      intro filling
      obtain ⟨entry, listed, rfl⟩ := List.mem_map.mp hx
      rw [← tidy.flagged hl, fills, List.any_eq_true]
      exact ⟨entry, listed, (alike.isFill_eq _).trans filling⟩
    rw [shareAll_eq, ← alike.layersOf_eq]
    have shared := placeOf?_foldl_shareColumns_of_mem c (tidy.nodup_layers id) hl hx flagged
    rw [refitted.fillShare_eq, ← alike.isFill_eq] at shared
    exact shared.congr (by simp [lays])
  · refine .of_not (fun h => own ?_) (placeOf?_shareAll c s fun other => own ?_)
    · exact tidy.sole id parent x child (mem_childrenOf_of_lays h.2)
    · exact tidy.sole_layers mem (alike.layersOf_eq parent ▸ other)

/-- Arranging for a wide screen gives filling widgets that are laid out the share of their layer,
from where they start on. -/
theorem placeOf?_shareBelow (n : Nat) (refitted : t.Refitted s) (parent : WidgetId) :
    SetIf (fit (fillShare c t l.ids)) (t.isFill x = true ∧ t.LaidWithin n parent x) (s.placeOf? x)
      ((shareBelow c n s parent).placeOf? x) := by
  induction n generalizing s parent with
  | zero => exact .of_not (fun h => h.2) rfl
  | succ n ih =>
    have same := refitted.alike.stackedChildren_eq parent
    rw [shareBelow, ← same]
    cases stack : t.stackedChildren parent with
    | nil => exact .of_not (fun h => by simp [LaidWithin, stack] at h) rfl
    | cons first rest =>
      have own := placeOf?_shareAll_of_stack c tidy hl hx refitted
        (show t.stackedChildren parent ≠ [] by simp [stack])
      have below := SetIf.foldl (I := t.Refitted) (fit_fit (fillShare c t l.ids))
        (fun s child refitted => refitted.trans (Refitted.shareBelow c n s child))
        (fun s child refitted => ih refitted child) (first :: rest)
        (refitted.trans (Refitted.shareAll c s parent))
      refine (own.trans (fit_fit _) below).congr ?_
      simp only [Lays, LaidWithin, stack]
      constructor
      · rintro (⟨filling, lays⟩ | ⟨child, lays, filling, within⟩)
        · exact ⟨filling, x, lays, .inl rfl⟩
        · exact ⟨filling, child, lays, .inr within⟩
      · rintro ⟨filling, child, lays, rfl | within⟩
        · exact .inl ⟨filling, lays⟩
        · exact .inr ⟨child, lays, filling, within⟩

omit tidy in
theorem placeOf?_arrangeDesktop (wellFormed : t.WellFormed) (refitted : t.Refitted s)
    (root : WidgetId) :
    SetIf (fit (fillShare c t l.ids)) (t.isFill x = true ∧ Relation.TransGen t.Lays root x)
      (s.placeOf? x) ((s.arrangeDesktop c root).placeOf? x) := by
  have alike := refitted.alike
  have lays : s.Lays = t.Lays := funext₂ fun _ _ => propext alike.lays_iff.symm
  have shared := placeOf?_shareBelow c wellFormed.tidy hl hx (s.size + 1) refitted root
  refine shared.congr (and_congr_right' ?_)
  rw [alike.laidWithin_iff, laidWithin_iff (wellFormed.congr alike), lays]

end Screens

/-! ### Narrow and wide again -/

/-- Laying a container out leaves every widget as it is. -/
def LaidOut (c : LayoutConfig) (t : WidgetTree) (id : WidgetId) : Prop :=
  ∀ x, (t.layOut c id).get? x = t.get? x

theorem LaidOut.balanced {c : LayoutConfig} {t : WidgetTree} {id : WidgetId} (tidy : t.Tidy)
    (h : t.LaidOut c id) : t.Balanced c id := by
  have alike := alike_layOut c t id
  have place : ∀ x, t.placeOf? x = (t.layOut c id).placeOf? x := fun x => by
    rw [placeOf?, placeOf?, h x]
  exact (balanced_layOut c tidy fun other => absurd rfl other).congr (alike.layersOf_eq id)
    (fun x _ => alike.isFill_eq x) fun x _ => .inl (widthOf_congr (place x))

/-- When containers are laid out, arranging for a narrow screen and then for a wide one only
changes the places of widgets. In their layers every one keeps its place, but filling widgets that
vertical stacks lay out start in the first column with the width they had; so exactly those that
started there have their place back. -/
theorem placeOf?_desktop_after_mobile {c : LayoutConfig} {t : WidgetTree}
    (wellFormed : t.WellFormed) (laidOut : ∀ id, t.layersOf id ≠ [] → t.LaidOut c id)
    (root : WidgetId) {id x : WidgetId} (mem : x ∈ Layers.flatten (t.layersOf id)) :
    let after := (t.arrangeMobile c root).arrangeDesktop c root
    let laid := t.isFill x = true ∧ Relation.TransGen t.Lays root x
    t.Alike after ∧ ∃ p, t.placeOf? x = some p ∧
      (laid → after.placeOf? x = some { p with leftColumn := 0, rightColumn := p.columns }) ∧
      (¬ laid → after.placeOf? x = some p) ∧
      (after.placeOf? x = some p ↔ laid → p.leftColumn = 0) := by
  intro after laid
  have tidy := wellFormed.tidy
  obtain ⟨l, hl, hx⟩ := List.mem_flatMap.mp mem
  obtain ⟨p, place⟩ := exists_placeOf? (tidy.there id x (tidy.mem_childrenOf mem))
  have refitted := refitted_arrangeMobile c t root
  have mobile : SetIf (fullRow c) laid (t.placeOf? x) ((t.arrangeMobile c root).placeOf? x) :=
    placeOf?_arrangeMobile c wellFormed root x
  have desktop : SetIf (fit (fillShare c t l.ids)) laid ((t.arrangeMobile c root).placeOf? x)
      (after.placeOf? x) := placeOf?_arrangeDesktop c hl hx wellFormed refitted root
  have set : laid →
      after.placeOf? x = some { p with leftColumn := 0, rightColumn := p.columns } := by
    intro h
    have share := (laidOut id (by rintro bare; simp [bare] at mem)).balanced tidy l hl x hx h.1
    rw [widthOf, place] at share
    rw [desktop.set h, mobile.set h, place, ← share]
    simp [fit, fullRow]
  have kept : ¬ laid → after.placeOf? x = some p := fun h => by
    rw [desktop.kept h, mobile.kept h, place]
  refine ⟨refitted.alike.trans (alike_shareBelow c _ _ root), p, place, set, kept, fun same h => ?_,
    fun start => ?_⟩
  · have moved := (set h).symm.trans same
    exact (congrArg GridPosition.leftColumn (Option.some.inj moved)).symm
  · by_cases h : laid
    · have first := start h
      rw [set h]
      cases p
      simp_all [GridPosition.columns]
    · exact kept h

/-- Whether layered containers are laid out can be told from the entries. -/
theorem forall_laidOut_iff {c : LayoutConfig} {t : WidgetTree} :
    (∀ id, t.layersOf id ≠ [] → t.LaidOut c id) ↔ ∀ id ∈ t.entries.keys, t.layersOf id ≠ [] →
      ∀ x ∈ t.entries.keys, (t.layOut c id).get? x = t.get? x := by
  refine ⟨fun all id _ layered x _ => all id layered x, fun all id layered x => ?_⟩
  have absent : ∀ {y}, y ∉ t.entries.keys → t.get? y = none := fun gone =>
    Option.eq_none_iff_forall_not_mem.mpr fun w hw =>
      gone ((Dict.mem_keys_iff _ _).mpr (contains_iff.mpr ⟨w, hw⟩))
  have key : id ∈ t.entries.keys := by
    by_contra gone
    exact layered (by simp [layersOf, absent gone])
  by_cases known : x ∈ t.entries.keys
  · exact all id key layered x known
  · have same := alike_layOut c t id x
    rw [absent known, Option.map_none, eq_comm, Option.map_eq_none_iff] at same
    rw [absent known, same]

/-- A row of a widget that hugs its content and one that fills the columns behind it. -/
def besideFill : WidgetTree :=
  .ofList [
    { Widget.ofType mainContainerId canvasType with
      children := ["a", "b"]
      layers := [⟨[⟨"a", .start⟩, ⟨"b", .start⟩], true⟩] },
    { Widget.ofType "a" "TEXT_WIDGET" with
      parent := some mainContainerId
      position := ⟨0, 4, 0, 16⟩ },
    { Widget.ofType "b" "TEXT_WIDGET" with
      parent := some mainContainerId
      position := ⟨0, 4, 16, 64⟩
      sizing := .fill }]

/-- The filling widget has its width back, but starts where the other one does. -/
theorem placeOf?_desktop_after_mobile_besideFill :
    besideFill.WellFormed ∧ (∀ id, besideFill.layersOf id ≠ [] → besideFill.LaidOut {} id) ∧
      "b" ∈ Layers.flatten (besideFill.layersOf mainContainerId) ∧
      ((besideFill.arrangeMobile {} mainContainerId).arrangeDesktop {} mainContainerId).placeOf?
        "b" = some ⟨0, 4, 0, 48⟩ := by
  have wellFormed : besideFill.WellFormed := by decide +kernel
  have laidOut : ∀ id, besideFill.layersOf id ≠ [] → besideFill.LaidOut {} id :=
    forall_laidOut_iff.mpr (by decide +kernel)
  have mem : "b" ∈ Layers.flatten (besideFill.layersOf mainContainerId) := by decide +kernel
  obtain ⟨-, p, place, set, -⟩ :=
    placeOf?_desktop_after_mobile wellFormed laidOut mainContainerId mem
  obtain rfl : (⟨0, 4, 16, 64⟩ : GridPosition) = p :=
    Option.some.inj ((by decide +kernel : some _ = besideFill.placeOf? "b").trans place)
  have filling : besideFill.isFill "b" = true := by decide +kernel
  have lays : besideFill.Lays mainContainerId "b" :=
    (by decide +kernel : "b" ∈ besideFill.stackedChildren mainContainerId)
  exact ⟨wellFormed, laidOut, mem, set ⟨filling, .single lays⟩⟩

/-- Not every layout comes back. -/
theorem not_restored_besideFill : ¬ ∀ t : WidgetTree, t.WellFormed →
    (∀ id, t.layersOf id ≠ [] → t.LaidOut {} id) →
    ∀ root, t.contains root = true ∧ t.parentOf? root = none →
    ∀ id, ∀ x ∈ Layers.flatten (t.layersOf id),
      (((t.arrangeMobile {} root).arrangeDesktop {} root).placeOf? x).map
        (fun p => (p.leftColumn, p.rightColumn)) =
      (t.placeOf? x).map fun p => (p.leftColumn, p.rightColumn) := by
  intro restored
  have back := restored besideFill (by decide +kernel) (forall_laidOut_iff.mpr (by decide +kernel))
    mainContainerId (by decide +kernel) mainContainerId "b" (by decide +kernel)
  exact absurd back (by decide +kernel)

end AppBuilder.WidgetTree
