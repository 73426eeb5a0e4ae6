import AppBuilder.Json.Basic

/-!
Where equality of values is identity.

`Json.same` takes the two zeros for one number and tells all else apart, so it is identity on
values without negative zeros (`Json.eq_of_same`). It is an equivalence (`Json.same_refl`,
`Json.same_comm`, `Json.same_trans`).
-/

namespace AppBuilder

/-- The bits of the negative zero. -/
def negativeZero : UInt64 := 0x8000000000000000

theorem eq_of_toBits_eq {x y : Float} (h : x.toBits = y.toBits) : x = y := by
  obtain ⟨⟨bits, valid⟩⟩ := x
  obtain ⟨⟨bits', valid'⟩⟩ := y
  obtain rfl : bits = bits' := h
  rfl

theorem eq_of_sameFloat {x y : Float} (hx : x.toBits ≠ negativeZero)
    (hy : y.toBits ≠ negativeZero) (h : sameFloat x y = true) : x = y := by
  simp only [sameFloat, isZero, Bool.or_eq_true, Bool.and_eq_true, decide_eq_true_eq] at h
  rcases h with h | ⟨zero, zero'⟩
  · exact h
  · exact eq_of_toBits_eq ((zero.resolve_right hx).trans (zero'.resolve_right hy).symm)

theorem sameFloat_symm {x y : Float} (h : sameFloat x y = true) : sameFloat y x = true := by
  simp only [sameFloat, Bool.or_eq_true, Bool.and_eq_true, decide_eq_true_eq] at h ⊢
  exact h.imp Eq.symm And.symm

theorem sameFloat_trans {x y z : Float} (h : sameFloat x y = true) (h' : sameFloat y z = true) :
    sameFloat x z = true := by
  simp only [sameFloat, isZero, Bool.or_eq_true, Bool.and_eq_true, decide_eq_true_eq] at h h' ⊢
  rcases h with h | ⟨zero, zero'⟩
  · rwa [h]
  · rcases h' with h' | ⟨-, zero''⟩
    · exact .inr ⟨zero, h' ▸ zero'⟩
    · exact .inr ⟨zero, zero''⟩

theorem Number.same_symm : ∀ {m n : Number}, m.same n = true → n.same m = true
  | .int _, .int _, h => by simpa only [Number.same, eq_comm] using h
  | .real _, .real _, h => sameFloat_symm h

theorem Number.same_refl : ∀ n : Number, n.same n = true
  | .int _ => decide_eq_true rfl
  | .real x => by simp [Number.same, sameFloat]

theorem Number.same_trans : ∀ {m n k : Number}, m.same n = true → n.same k = true →
    m.same k = true
  | .int _, .int _, .int _, h, h' => by
    simp only [Number.same, decide_eq_true_eq] at h h' ⊢
    exact h.trans h'
  | .real _, .real _, .real _, h, h' => sameFloat_trans h h'

namespace Json

mutual

/-- The floating-point numbers inside a value. -/
def reals : Json → List Float
  | .number (.real x) => [x]
  | .array xs => realsOfItems xs
  | .object fs => realsOfFields fs
  | _ => []

/-- `reals` of a list of values. -/
def realsOfItems : List Json → List Float
  | [] => []
  | x :: xs => reals x ++ realsOfItems xs

/-- `reals` of a list of fields. -/
def realsOfFields : List (String × Json) → List Float
  | [] => []
  | (_, x) :: fs => reals x ++ realsOfFields fs

end

/-- No number is the negative zero. -/
def Signless (xs : List Float) : Prop := ∀ x ∈ xs, x.toBits ≠ negativeZero

instance (xs : List Float) : Decidable (Signless xs) :=
  inferInstanceAs (Decidable (∀ x ∈ xs, x.toBits ≠ negativeZero))

theorem Signless.append {xs ys : List Float} (h : Signless (xs ++ ys)) :
    Signless xs ∧ Signless ys :=
  List.forall_mem_append.mp h

mutual

/-- Equal values without negative zeros are identical. -/
theorem eq_of_same : ∀ {a b : Json}, Signless a.reals → Signless b.reals → a.same b = true → a = b
  | .null, .null, _, _, _ => rfl
  | .bool a, .bool b, _, _, h => by
    simp only [same, decide_eq_true_eq] at h
    rw [h]
  | .number (.int m), .number (.int n), _, _, h => by
    simp only [same, Number.same, decide_eq_true_eq] at h
    rw [h]
  | .number (.real x), .number (.real y), hx, hy, h => by
    simp only [same, Number.same] at h
    rw [eq_of_sameFloat (hx x (by simp [reals])) (hy y (by simp [reals])) h]
  | .string s, .string s', _, _, h => by
    simp only [same, decide_eq_true_eq] at h
    rw [h]
  | .array xs, .array ys, hx, hy, h => by
    simp only [same] at h
    rw [eq_of_sameItems (by simpa only [reals] using hx) (by simpa only [reals] using hy) h]
  | .object fs, .object gs, hf, hg, h => by
    simp only [same] at h
    rw [eq_of_sameFields (by simpa only [reals] using hf) (by simpa only [reals] using hg) h]

theorem eq_of_sameItems : ∀ {xs ys : List Json}, Signless (realsOfItems xs) →
    Signless (realsOfItems ys) → sameItems xs ys = true → xs = ys
  | [], [], _, _, _ => rfl
  | x :: xs, y :: ys, hx, hy, h => by
    simp only [realsOfItems] at hx hy
    simp only [sameItems, Bool.and_eq_true] at h
    rw [eq_of_same hx.append.1 hy.append.1 h.1, eq_of_sameItems hx.append.2 hy.append.2 h.2]

theorem eq_of_sameFields : ∀ {fs gs : List (String × Json)}, Signless (realsOfFields fs) →
    Signless (realsOfFields gs) → sameFields fs gs = true → fs = gs
  | [], [], _, _, _ => rfl
  | (k, x) :: fs, (l, y) :: gs, hf, hg, h => by
    simp only [realsOfFields] at hf hg
    simp only [sameFields, Bool.and_eq_true, decide_eq_true_eq] at h
    rw [h.1.1, eq_of_same hf.append.1 hg.append.1 h.1.2,
      eq_of_sameFields hf.append.2 hg.append.2 h.2]

end

/-! ### Symmetry -/

mutual

theorem same_symm : ∀ {a b : Json}, a.same b = true → b.same a = true
  | .null, .null, h => h
  | .bool _, .bool _, h => by simpa only [same, eq_comm] using h
  | .number _, .number _, h => by
    simp only [same] at h ⊢
    exact Number.same_symm h
  | .string _, .string _, h => by simpa only [same, eq_comm] using h
  | .array xs, .array ys, h => by
    simp only [same] at h ⊢
    exact sameItems_symm h
  | .object fs, .object gs, h => by
    simp only [same] at h ⊢
    exact sameFields_symm h

theorem sameItems_symm : ∀ {xs ys : List Json}, sameItems xs ys = true → sameItems ys xs = true
  | [], [], h => h
  | x :: xs, y :: ys, h => by
    simp only [sameItems, Bool.and_eq_true] at h ⊢
    exact ⟨same_symm h.1, sameItems_symm h.2⟩

theorem sameFields_symm : ∀ {fs gs : List (String × Json)}, sameFields fs gs = true →
    sameFields gs fs = true
  | [], [], h => h
  | (k, x) :: fs, (l, y) :: gs, h => by
    simp only [sameFields, Bool.and_eq_true, decide_eq_true_eq] at h ⊢
    exact ⟨⟨h.1.1.symm, same_symm h.1.2⟩, sameFields_symm h.2⟩

end

/-- Equality of values is symmetric. -/
theorem same_comm (a b : Json) : a.same b = b.same a :=
  Bool.eq_iff_iff.mpr ⟨same_symm, same_symm⟩

/-! ### Reflexivity and transitivity -/

mutual

theorem same_refl : ∀ a : Json, a.same a = true
  | .null => rfl
  | .bool _ | .string _ => decide_eq_true rfl
  | .number n => n.same_refl
  | .array xs => sameItems_refl xs
  | .object fs => sameFields_refl fs

theorem sameItems_refl : ∀ xs : List Json, sameItems xs xs = true
  | [] => rfl
  | x :: xs => by simp only [sameItems, same_refl x, sameItems_refl xs, Bool.and_self]

theorem sameFields_refl : ∀ fs : List (String × Json), sameFields fs fs = true
  | [] => rfl
  | (k, x) :: fs => by
    simp only [sameFields, same_refl x, sameFields_refl fs, decide_true, Bool.and_self]

end

mutual

theorem same_trans : ∀ {a b c : Json}, a.same b = true → b.same c = true → a.same c = true
  | .null, .null, .null, _, _ => rfl
  | .bool _, .bool _, .bool _, h, h' => by
    simp only [same, decide_eq_true_eq] at h h' ⊢
    exact h.trans h'
  | .number _, .number _, .number _, h, h' => by
    simp only [same] at h h' ⊢
    exact Number.same_trans h h'
  | .string _, .string _, .string _, h, h' => by
    simp only [same, decide_eq_true_eq] at h h' ⊢
    exact h.trans h'
  | .array xs, .array ys, .array zs, h, h' => by
    simp only [same] at h h' ⊢
    exact sameItems_trans h h'
  | .object fs, .object gs, .object hs, h, h' => by
    simp only [same] at h h' ⊢
    exact sameFields_trans h h'

theorem sameItems_trans : ∀ {xs ys zs : List Json}, sameItems xs ys = true →
    sameItems ys zs = true → sameItems xs zs = true
  | [], [], [], _, _ => rfl
  | x :: xs, y :: ys, z :: zs, h, h' => by
    simp only [sameItems, Bool.and_eq_true] at h h' ⊢
    exact ⟨same_trans h.1 h'.1, sameItems_trans h.2 h'.2⟩

theorem sameFields_trans : ∀ {fs gs hs : List (String × Json)}, sameFields fs gs = true →
    sameFields gs hs = true → sameFields fs hs = true
  | [], [], [], _, _ => rfl
  | (k, x) :: fs, (l, y) :: gs, (m, z) :: hs, h, h' => by
    simp only [sameFields, Bool.and_eq_true, decide_eq_true_eq] at h h' ⊢
    exact ⟨⟨h.1.1.trans h'.1.1, same_trans h.1.2 h'.1.2⟩, sameFields_trans h.2 h'.2⟩

end

/-! ### Values that may be missing -/

theorem beq_option_refl (a : Option Json) : (a == a) = true := by
  cases a with
  | none => rfl
  | some x => exact x.same_refl

theorem beq_option_trans {a b c : Option Json} (h : (a == b) = true) (h' : (b == c) = true) :
    (a == c) = true := by
  cases a <;> cases b <;> cases c <;> simp_all
  exact same_trans h h'

theorem isSome_eq_of_beq {a b : Option Json} (h : (a == b) = true) : a.isSome = b.isSome := by
  cases a <;> cases b <;> simp_all

end Json

end AppBuilder
