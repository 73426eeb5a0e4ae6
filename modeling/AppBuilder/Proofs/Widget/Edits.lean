import AppBuilder.Widget.Tree

/-!
Trees as they are edited.

All that happens to a tree is that single widgets are stored, removed and changed (`TreeEdit`,
`EditsTo`). Every identity is given once, so an entry that is older than the edits in between is
still the entry it was (`Later`). Comparing identities therefore misses no widget that came, went
or differs (`Later.mem_changedSince`).
-/

namespace AppBuilder

/-- An edit of one widget of a tree. -/
inductive TreeEdit where
  | insert (w : Widget)
  | remove (id : WidgetId)
  | modify (id : WidgetId) (f : Widget → Widget)

namespace WidgetTree

def edit (t : WidgetTree) : TreeEdit → WidgetTree
  | .insert w => t.insert w
  | .remove id => t.remove id
  | .modify id f => t.modify id f

theorem modify_of_get? {t : WidgetTree} {id : WidgetId} {w : Widget} (hw : t.get? id = some w)
    (f : Widget → Widget) : t.modify id f = t.write id (f w) := by
  simp only [modify, hw]

theorem modify_of_missing {t : WidgetTree} {id : WidgetId} (gone : t.get? id = none)
    (f : Widget → Widget) : t.modify id f = t := by
  simp only [modify, gone]

/-- An edit writes an entry, takes one out or does nothing. -/
theorem edit_cases (t : WidgetTree) (e : TreeEdit) :
    (∃ key w, t.edit e = t.write key w) ∨ (∃ id, t.edit e = t.remove id) ∨ t.edit e = t := by
  cases e with
  | insert w => exact .inl ⟨w.id, w, rfl⟩
  | remove id => exact .inr (.inl ⟨id, rfl⟩)
  | modify id f =>
    cases hw : t.get? id with
    | none => exact .inr (.inr (modify_of_missing hw f))
    | some w => exact .inl ⟨id, f w, modify_of_get? hw f⟩

/-! ### Sequences of edits -/

/-- A tree comes from another one by edits. -/
def EditsTo (t t' : WidgetTree) : Prop := ∃ es : List TreeEdit, t' = es.foldl edit t

namespace EditsTo

variable {t t' t'' : WidgetTree}

theorem refl (t : WidgetTree) : t.EditsTo t := ⟨[], rfl⟩

theorem single (t : WidgetTree) (e : TreeEdit) : t.EditsTo (t.edit e) := ⟨[e], rfl⟩

theorem trans (h : t.EditsTo t') (h' : t'.EditsTo t'') : t.EditsTo t'' := by
  obtain ⟨es, rfl⟩ := h
  obtain ⟨es', rfl⟩ := h'
  exact ⟨es ++ es', List.foldl_append.symm⟩

theorem modify (t : WidgetTree) (id : WidgetId) (f : Widget → Widget) : t.EditsTo (t.modify id f) :=
  .single t (.modify id f)

/-- A loop edits the tree that it carries along when each step does. -/
theorem foldl {σ β : Type} (tree : σ → WidgetTree) {step : σ → β → σ}
    (each : ∀ s b, (tree s).EditsTo (tree (step s b))) (bs : List β) (s : σ) :
    (tree s).EditsTo (tree (bs.foldl step s)) := by
  induction bs generalizing s with
  | nil => exact .refl _
  | cons b bs ih => exact (each s b).trans (ih (step s b))

end EditsTo

theorem get?_widgets (t : WidgetTree) (id : WidgetId) : t.widgets.get? id = t.get? id :=
  Dict.get?_map _ _ _

/-- There is a tree of any widgets by name. -/
theorem exists_edits_of_dict (d : Dict Widget) :
    ∃ es : List TreeEdit, (es.foldl edit empty).widgets = d := by
  let storing (e : String × Widget) : List TreeEdit :=
    [.insert { e.2 with id := e.1 }, .modify e.1 fun _ => e.2]
  have store : ∀ (t : WidgetTree) e,
      ((storing e).foldl edit t).widgets = t.widgets.insert e.1 e.2 := by
    intro t e
    refine Dict.ext_get? fun k => ?_
    by_cases own : e.1 = k <;>
      simp [storing, edit, insert, get?_widgets, get?_modify, get?_write, Dict.get?_insert, own]
  have run : ∀ (es : List (String × Widget)) (t : WidgetTree),
      ((es.flatMap storing).foldl edit t).widgets =
        es.foldl (fun d e => d.insert e.1 e.2) t.widgets := by
    intro es
    induction es with
    | nil => exact fun _ => rfl
    | cons e es ih =>
      intro t
      rw [List.flatMap_cons, List.foldl_append, ih, store, List.foldl_cons]
  refine ⟨d.entries.flatMap storing, (run d.entries empty).trans ?_⟩
  refine Dict.ext_get? fun k => ?_
  have all : (Dict.empty.extend d).get? k = d.get? k := by simp [Dict.get?_extend]
  exact all

/-! ### Identities -/

/-- The identities in a tree were given before the next one. -/
def Issued (t : WidgetTree) : Prop :=
  ∀ id e, t.entries.get? id = some e → e.identity < t.nextIdentity

/-- A later state of a tree. What is in it with an identity of the earlier state was there then. -/
structure Later (earlier t : WidgetTree) : Prop where
  next : earlier.nextIdentity ≤ t.nextIdentity
  issued : t.Issued
  kept : ∀ id e, t.entries.get? id = some e → e.identity < earlier.nextIdentity →
    earlier.entries.get? id = some e

theorem issued_empty : empty.Issued := fun _ _ he => by cases he

namespace Later

variable {earlier t t' : WidgetTree}

theorem refl (issued : t.Issued) : t.Later t := ⟨Nat.le_refl _, issued, fun _ _ he _ => he⟩

theorem write (h : earlier.Later t) (key : WidgetId) (w : Widget) :
    earlier.Later (t.write key w) where
  next := Nat.le_succ_of_le h.next
  issued id e he := by
    obtain ⟨-, rfl⟩ | ⟨-, old⟩ := Dict.get?_insert_eq_some_iff.mp he
    · exact Nat.lt_succ_self _
    · exact Nat.lt_succ_of_lt (h.issued id e old)
  kept id e he older := by
    obtain ⟨-, rfl⟩ | ⟨-, old⟩ := Dict.get?_insert_eq_some_iff.mp he
    · exact absurd older (Nat.not_lt.mpr h.next)
    · exact h.kept id e old older

theorem remove (h : earlier.Later t) (id : WidgetId) : earlier.Later (t.remove id) where
  next := h.next
  issued x e he := h.issued x e (Dict.get?_erase_eq_some_iff.mp he).2
  kept x e he := h.kept x e (Dict.get?_erase_eq_some_iff.mp he).2

theorem edit (h : earlier.Later t) (e : TreeEdit) : earlier.Later (t.edit e) := by
  obtain ⟨key, w, written⟩ | ⟨id, removed⟩ | same := t.edit_cases e
  · exact written ▸ h.write key w
  · exact removed ▸ h.remove id
  · exact same.symm ▸ h

theorem editsTo (h : earlier.Later t) (edits : t.EditsTo t') : earlier.Later t' := by
  obtain ⟨es, rfl⟩ := edits
  induction es generalizing t with
  | nil => exact h
  | cons e es ih => exact ih (h.edit e)

end Later

/-- What changed is what has another identity, or one in only one of the trees. -/
theorem mem_changedSince_iff {t earlier : WidgetTree} {id : WidgetId} :
    id ∈ t.changedSince earlier ↔
      (t.entries.get? id).map (·.identity) ≠ (earlier.entries.get? id).map (·.identity) := by
  rw [changedSince, NameSet.mem_filter, NameSet.mem_ofList, List.mem_append, Dict.mem_keys_iff,
    Dict.mem_keys_iff, Dict.contains, Dict.contains]
  cases t.entries.get? id <;> cases earlier.entries.get? id <;> simp

/-- Every widget that came, went or differs is among those that changed. -/
theorem Later.mem_changedSince {earlier t : WidgetTree} (h : earlier.Later t)
    (issued : earlier.Issued) {id : WidgetId} (differs : t.get? id ≠ earlier.get? id) :
    id ∈ t.changedSince earlier := by
  refine mem_changedSince_iff.mpr fun same => differs ?_
  cases old : earlier.entries.get? id with
  | none =>
    rw [old, Option.map_none, Option.map_eq_none_iff] at same
    rw [get?, get?, same, old]
  | some e₀ =>
    rw [old, Option.map_some, Option.map_eq_some_iff] at same
    obtain ⟨e, he, identity⟩ := same
    have kept := h.kept id e he (identity ▸ issued id e₀ old)
    rw [get?, get?, he, kept]

end WidgetTree

end AppBuilder
