import Sema.Ty.Assign

/-!
# Equivalence is equality, and assignability has three rules

The tests `Ty.same` and `Ty.fits` walk through two types at once and turn round at every parameter.
What they decide can be said without them:

* two types are the same exactly when they are equal (`Ty.same_iff_eq`): two function types that fit
  each other have equal parts, because `any` takes everything and fits nothing but itself;
* a type fits another exactly when it is `Assignable` to it: to `any`, to itself, or by the variance
  of function types (`Ty.fits_iff_assignable`).
-/

namespace Sema

namespace Ty

/-! ## 1. Equivalence -/

mutual

/-- **Types that fit each other are equal.** The second test is read in the direction in which the
    recursion meets it. -/
theorem eq_of_fits_of_admits : ∀ a b : Ty, fits a b = true → admits a b = true → a = b
  | any, b, h, _ => by
      cases b with
      | any => rfl
      | _ => simp [fits] at h
  | list a, b, h, k => by
      cases b with
      | list b =>
          simp only [fits] at h
          rw [eq_of_same a b h]
      | any => simp [admits] at k
      | _ => simp [fits] at h
  | function ps r, b, h, k => by
      cases b with
      | function qs s =>
          simp only [fits, admits, Bool.and_eq_true] at h k
          rw [eq_of_fits_of_admits r s h.1 k.1, eq_of_fitsAll_of_admitsAll ps qs k.2 h.2]
      | any => simp [admits] at k
      | _ => simp [fits] at h
  | bool, b, _, k | int, b, _, k | float, b, _, k | str, b, _, k | void, b, _, k
  | type, b, _, k => by
      cases b <;> simp [admits] at k ⊢

theorem eq_of_same : ∀ a b : Ty, same a b = true → a = b
  | list a, b, h => by
      cases b with
      | list b =>
          simp only [same] at h
          rw [eq_of_same a b h]
      | _ => simp [same] at h
  | function ps r, b, h => by
      cases b with
      | function qs s =>
          simp only [same, Bool.and_eq_true] at h
          obtain ⟨⟨hr, hps⟩, hr', hps'⟩ := h
          rw [eq_of_fits_of_admits r s hr hr', eq_of_fitsAll_of_admitsAll ps qs hps' hps]
      | _ => simp [same] at h
  | bool, b, h | int, b, h | float, b, h | str, b, h | void, b, h | type, b, h | any, b, h => by
      cases b <;> simp [same] at h ⊢

theorem eq_of_fitsAll_of_admitsAll :
    ∀ as bs : List Ty, fitsAll as bs = true → admitsAll as bs = true → as = bs
  | [], [], _, _ => rfl
  | [], _ :: _, h, _ => by simp [fitsAll] at h
  | _ :: _, [], h, _ => by simp [fitsAll] at h
  | a :: as, b :: bs, h, k => by
      simp only [fitsAll, admitsAll, Bool.and_eq_true] at h k
      rw [eq_of_fits_of_admits a b h.1 k.1, eq_of_fitsAll_of_admitsAll as bs h.2 k.2]

end

/-- **Equivalent types are equal types.** -/
theorem same_iff_eq (a b : Ty) : same a b = true ↔ a = b :=
  ⟨eq_of_same a b, fun h => h ▸ same_refl a⟩

/-! ## 2. Assignability -/

/-- A value of the first type may be stored where the second is expected: the second is `any`, or
    they are equal, or both are functions of one arity, covariant in the result and contravariant
    in each parameter. -/
inductive Assignable : Ty → Ty → Prop where
  | any (a : Ty) : Assignable a .any
  | refl (a : Ty) : Assignable a a
  | function {ps qs : List Ty} {r s : Ty} (result : Assignable r s)
      (arity : ps.length = qs.length)
      (parameters : ∀ pq ∈ ps.zip qs, Assignable pq.2 pq.1) :
      Assignable (.function ps r) (.function qs s)

/-- The reversed tests hold of all parameters when there are equally many and each holds. -/
theorem admitsAll_iff : ∀ ps qs : List Ty,
    admitsAll ps qs = true ↔
      ps.length = qs.length ∧ ∀ pq ∈ ps.zip qs, admits pq.1 pq.2 = true
  | [], [] => by simp [admitsAll]
  | [], _ :: _ => by simp [admitsAll]
  | _ :: _, [] => by simp [admitsAll]
  | p :: ps, q :: qs => by
      simp only [admitsAll, Bool.and_eq_true, admitsAll_iff ps qs, List.length_cons,
        List.zip_cons_cons, List.forall_mem_cons, Nat.add_right_cancel_iff]
      exact and_left_comm

theorem fits_function (ps qs : List Ty) (r s : Ty) :
    fits (.function ps r) (.function qs s) = true ↔
      fits r s = true ∧ ps.length = qs.length ∧ ∀ pq ∈ ps.zip qs, fits pq.2 pq.1 = true := by
  simp only [fits, Bool.and_eq_true, admitsAll_iff, admits_eq]

theorem Assignable.fits {a b : Ty} (h : Assignable a b) : fits a b = true := by
  induction h with
  | any a => cases a <;> simp [Ty.fits]
  | refl a => exact fits_refl a
  | function _ arity _ result parameters =>
      exact (fits_function _ _ _ _).mpr ⟨result, arity, parameters⟩

mutual

theorem assignable_of_fits : ∀ a b : Ty, fits a b = true → Assignable a b
  | any, b, h => by
      cases b with
      | any => exact .refl _
      | _ => simp [fits] at h
  | list a, b, h => by
      cases b with
      | list b =>
          simp only [fits] at h
          rw [eq_of_same a b h]
          exact .refl _
      | any => exact .any _
      | _ => simp [fits] at h
  | function ps r, b, h => by
      cases b with
      | function qs s =>
          simp only [fits, Bool.and_eq_true] at h
          have hps := (admitsAll_iff ps qs).mp h.2
          exact .function (assignable_of_fits r s h.1) hps.1
            (assignable_of_admitsAll ps qs hps.2)
      | any => exact .any _
      | _ => simp [fits] at h
  | bool, b, h | int, b, h | float, b, h | str, b, h | void, b, h | type, b, h => by
      cases b <;> simp [fits] at h <;> constructor

theorem assignable_of_admits : ∀ a b : Ty, admits a b = true → Assignable b a
  | any, b, _ => .any b
  | list a, b, h => by
      cases b with
      | list b =>
          simp only [admits] at h
          rw [eq_of_same a b h]
          exact .refl _
      | _ => simp [admits] at h
  | function ps r, b, h => by
      cases b with
      | function qs s =>
          simp only [admits, Bool.and_eq_true] at h
          have hqs := (admitsAll_iff qs ps).mp (fitsAll_eq ps qs ▸ h.2)
          exact .function (assignable_of_admits r s h.1) hqs.1
            (assignable_of_fitsAll ps qs h.2)
      | _ => simp [admits] at h
  | bool, b, h | int, b, h | float, b, h | str, b, h | void, b, h | type, b, h => by
      cases b <;> simp [admits] at h
      constructor

theorem assignable_of_admitsAll : ∀ ps qs : List Ty,
    (∀ pq ∈ ps.zip qs, admits pq.1 pq.2 = true) → ∀ pq ∈ ps.zip qs, Assignable pq.2 pq.1
  | [], _, _ => by simp
  | _ :: _, [], _ => by simp
  | p :: ps, q :: qs, h => by
      simp only [List.zip_cons_cons, List.forall_mem_cons] at h ⊢
      exact ⟨assignable_of_admits p q h.1, assignable_of_admitsAll ps qs h.2⟩

theorem assignable_of_fitsAll : ∀ ps qs : List Ty, fitsAll ps qs = true →
    ∀ pq ∈ qs.zip ps, Assignable pq.2 pq.1
  | [], [], _ => by simp
  | [], _ :: _, h => by simp [fitsAll] at h
  | _ :: _, [], h => by simp [fitsAll] at h
  | p :: ps, q :: qs, h => by
      simp only [fitsAll, Bool.and_eq_true] at h
      simp only [List.zip_cons_cons, List.forall_mem_cons]
      exact ⟨assignable_of_fits p q h.1, assignable_of_fitsAll ps qs h.2⟩

end

/-- **The test for assignability decides the three rules.** -/
theorem fits_iff_assignable (a b : Ty) : fits a b = true ↔ Assignable a b :=
  ⟨assignable_of_fits a b, Assignable.fits⟩

end Ty

end Sema
