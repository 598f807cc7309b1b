import Mathlib.Data.List.Forall2
import Sema.Proofs.Assignability

/-!
# Assignability is subtyping

Two readings of the tests on types that do not mention the tests:

* equivalence is equality (`same_is_equality`): the mutual test on function types never lets two
  widenings to `any` add up to a false equivalence;
* assignability is the least reflexive and transitive relation with `any` on top and with the
  variance of function types (`fits_decides_subtyping`).

`Ty.Assignable` has no rule for a chain of two steps, and needs none: a chain can be shortened to
one step (`Ty.Assignable.trans`). The parameters of a function turn the chain round, so the argument
goes up from a type and down to it at once, by recursion on that type.
-/

namespace Sema

namespace Ty

/-! ## 1. Shapes -/

namespace Assignable

/-- Nothing takes a value of type `any` but `any`. -/
theorem eq_any {b : Ty} (h : Assignable .any b) : b = .any := by
  cases h with
  | any => rfl
  | refl => rfl

/-- Function types of one arity, read place by place. -/
theorem function_iff {ps qs : List Ty} {r s : Ty} :
    Assignable (.function ps r) (.function qs s) ↔
      Assignable r s ∧ List.Forall₂ (fun p q => Assignable q p) ps qs := by
  constructor
  · intro h
    cases h with
    | refl => exact ⟨.refl r, List.forall₂_same.mpr fun p _ => .refl p⟩
    | function result arity parameters =>
        exact ⟨result, List.forall₂_iff_zip.mpr ⟨arity, fun {p q} hpq => parameters (p, q) hpq⟩⟩
  · rintro ⟨result, hparams⟩
    obtain ⟨arity, hzip⟩ := List.forall₂_iff_zip.mp hparams
    exact .function result arity fun pq hpq => hzip hpq

/-- What a function fits is `any` or a function. -/
theorem shape_of_function {ps : List Ty} {r b : Ty} (h : Assignable (.function ps r) b) :
    b = .any ∨ ∃ qs s, b = .function qs s := by
  cases h with
  | any => exact .inl rfl
  | refl => exact .inr ⟨ps, r, rfl⟩
  | @function _ qs _ s _ _ _ => exact .inr ⟨qs, s, rfl⟩

/-- Whatever fits a function type is a function. -/
theorem shape_to_function {qs : List Ty} {a s : Ty} (h : Assignable a (.function qs s)) :
    ∃ ps r, a = .function ps r := by
  cases h with
  | refl => exact ⟨qs, s, rfl⟩
  | @function ps _ r _ _ _ _ => exact ⟨ps, r, rfl⟩

/-- What is no function fits `any` and itself. -/
theorem eq_or_any {a b : Ty} (ha : ∀ ps r, a ≠ .function ps r) (h : Assignable a b) :
    b = .any ∨ b = a := by
  cases h with
  | any => exact .inl rfl
  | refl => exact .inr rfl
  | @function ps _ r _ _ _ _ => exact absurd rfl (ha ps r)

/-- Where neither `any` nor a function is expected, only that type fits. -/
theorem eq_of_plain {a b : Ty} (hany : b ≠ .any) (hb : ∀ ps r, b ≠ .function ps r)
    (h : Assignable a b) : a = b := by
  cases h with
  | any => exact absurd rfl hany
  | refl => rfl
  | @function _ qs _ s _ _ _ => exact absurd rfl (hb qs s)

/-! ## 2. Chains -/

/-- A chain up from a type that is no function. -/
theorem trans_of_plain {a b c : Ty} (ha : ∀ ps r, a ≠ .function ps r) (h : Assignable a b)
    (k : Assignable b c) : Assignable a c := by
  obtain rfl | rfl := eq_or_any ha h
  · obtain rfl := k.eq_any
    exact .any a
  · exact k

/-- A chain down to a type that is neither `any` nor a function. -/
theorem trans_to_plain {a b c : Ty} (hany : a ≠ .any) (ha : ∀ ps r, a ≠ .function ps r)
    (h : Assignable c b) (k : Assignable b a) : Assignable c a := by
  obtain rfl := eq_of_plain hany ha k
  exact h

mutual

/-- **A chain up from `a` is one step.** -/
theorem trans_from : ∀ (a : Ty) {b c : Ty}, Assignable a b → Assignable b c → Assignable a c
  | .function ps r, b, c, h, k => by
      obtain rfl | ⟨qs, s, rfl⟩ := h.shape_of_function
      · obtain rfl := k.eq_any
        exact .any _
      · obtain rfl | ⟨us, t, rfl⟩ := k.shape_of_function
        · exact .any _
        · obtain ⟨hresult, hparams⟩ := function_iff.mp h
          obtain ⟨kresult, kparams⟩ := function_iff.mp k
          exact function_iff.mpr
            ⟨trans_from r hresult kresult, trans_toAll ps hparams kparams⟩
  | .bool, _, _, h, k | .int, _, _, h, k | .float, _, _, h, k | .str, _, _, h, k
  | .void, _, _, h, k | .type, _, _, h, k | .any, _, _, h, k | .list _, _, _, h, k =>
      trans_of_plain nofun h k

/-- **A chain down to `a` is one step.** -/
theorem trans_to : ∀ (a : Ty) {b c : Ty}, Assignable c b → Assignable b a → Assignable c a
  | .function ps r, b, c, h, k => by
      obtain ⟨qs, s, rfl⟩ := k.shape_to_function
      obtain ⟨us, t, rfl⟩ := h.shape_to_function
      obtain ⟨hresult, hparams⟩ := function_iff.mp h
      obtain ⟨kresult, kparams⟩ := function_iff.mp k
      exact function_iff.mpr
        ⟨trans_to r hresult kresult, trans_fromAll ps hparams kparams⟩
  | .any, _, c, _, _ => .any c
  | .bool, _, _, h, k | .int, _, _, h, k | .float, _, _, h, k | .str, _, _, h, k
  | .void, _, _, h, k | .type, _, _, h, k | .list _, _, _, h, k =>
      trans_to_plain nofun nofun h k

/-- Parameters of the first function in a chain up: each chain leads down to them. -/
theorem trans_toAll : ∀ (ps : List Ty) {qs us : List Ty},
    List.Forall₂ (fun p q => Assignable q p) ps qs →
    List.Forall₂ (fun q u => Assignable u q) qs us →
    List.Forall₂ (fun p u => Assignable u p) ps us
  | [], _, _, .nil, .nil => .nil
  | p :: ps, _, _, .cons hp hps, .cons hq hqs =>
      .cons (trans_to p hq hp) (trans_toAll ps hps hqs)

/-- Parameters of the last function in a chain down: each chain leads up from them. -/
theorem trans_fromAll : ∀ (ps : List Ty) {qs us : List Ty},
    List.Forall₂ (fun u q => Assignable q u) us qs →
    List.Forall₂ (fun q p => Assignable p q) qs ps →
    List.Forall₂ (fun u p => Assignable p u) us ps
  | [], _, _, .nil, .nil => .nil
  | p :: ps, _, _, .cons hu hus, .cons hq hqs =>
      .cons (trans_from p hq hu) (trans_fromAll ps hus hqs)

end

theorem trans {a b c : Ty} (h : Assignable a b) (k : Assignable b c) : Assignable a c :=
  trans_from a h k

end Assignable

/-! ## 3. Equivalence -/

/-- Types that fit each other are equal, read in one direction only. -/
theorem eq_of_fits_of_fits {a b : Ty} (h : fits a b = true) (k : fits b a = true) : a = b := by
  rw [← admits_eq] at k
  exact eq_of_fits_of_admits a b h k

/-- Parameters are the same place by place when they are equal. -/
theorem forall₂_same_iff {ps qs : List Ty} :
    List.Forall₂ (fun p q => same p q = true) ps qs ↔ ps = qs := by
  have hsame : (fun p q : Ty => same p q = true) = Eq := by
    funext p q
    exact propext (same_iff_eq p q)
  rw [hsame, List.forall₂_eq_eq_eq]

/-- **Equivalence is equality.** The test for equivalence gives the answer of the structural test;
    it holds exactly of types that fit each other; so it is an equivalence relation, and a
    congruence for list and function types. On function types it is computed by fitting both
    ways. -/
theorem same_is_equality :
    (∀ a b : Ty, same a b = beq a b) ∧
    (∀ a b : Ty, same a b = true ↔ a = b) ∧
    (∀ a b : Ty, same a b = true ↔ fits a b = true ∧ fits b a = true) ∧
    Equivalence (fun a b : Ty => same a b = true) ∧
    (∀ a b : Ty, same (.list a) (.list b) = same a b) ∧
    (∀ (ps qs : List Ty) (r s : Ty), same (.function ps r) (.function qs s) = true ↔
      List.Forall₂ (fun p q => same p q = true) ps qs ∧ same r s = true) ∧
    (∀ (ps qs : List Ty) (r s : Ty), same (.function ps r) (.function qs s) =
      (fits (.function ps r) (.function qs s) && fits (.function qs s) (.function ps r))) := by
  refine ⟨fun a b => ?_, same_iff_eq, fun a b => ⟨fun h => ?_, fun h => ?_⟩, ⟨same_refl, ?_, ?_⟩,
    fun a b => ?_, fun ps qs r s => ?_, same_function⟩
  · have hbeq := beq_iff a b
    rw [← same_iff_eq] at hbeq
    exact Bool.eq_iff_iff.mpr hbeq.symm
  · obtain rfl := (same_iff_eq a b).mp h
    exact ⟨fits_refl a, fits_refl a⟩
  · rw [same_iff_eq]
    exact eq_of_fits_of_fits h.1 h.2
  · intro a b h
    rw [same_comm]
    exact h
  · intro a b c h k
    rw [same_iff_eq] at h k ⊢
    exact h.trans k
  · rw [same]
  · rw [same_iff_eq, forall₂_same_iff, same_iff_eq, Ty.function.injEq]

/-! ## 4. Subtyping -/

/-- The least reflexive and transitive relation that has `any` above everything and is covariant in
    the result and contravariant in the parameters of function types of one arity. There is no rule
    for lists. -/
inductive Subtyping : Ty → Ty → Prop where
  | refl (a : Ty) : Subtyping a a
  | trans {a b c : Ty} (h : Subtyping a b) (k : Subtyping b c) : Subtyping a c
  | any (a : Ty) : Subtyping a .any
  | function {ps qs : List Ty} {r s : Ty} (result : Subtyping r s) (arity : ps.length = qs.length)
      (parameters : ∀ pq ∈ ps.zip qs, Subtyping pq.2 pq.1) :
      Subtyping (.function ps r) (.function qs s)

theorem Subtyping.assignable {a b : Ty} (h : Subtyping a b) : Assignable a b := by
  induction h with
  | refl a => exact .refl a
  | trans _ _ h k => exact h.trans k
  | any a => exact .any a
  | function _ arity _ result parameters => exact .function result arity parameters

theorem Assignable.subtyping {a b : Ty} (h : Assignable a b) : Subtyping a b := by
  induction h with
  | any a => exact .any a
  | refl a => exact .refl a
  | function _ arity _ result parameters => exact .function result arity parameters

theorem fits_iff_subtyping (a b : Ty) : fits a b = true ↔ Subtyping a b :=
  (fits_iff_assignable a b).trans ⟨Assignable.subtyping, Subtyping.assignable⟩

/-- **Assignability decides subtyping.** So it is reflexive and transitive at every nesting; lists
    are invariant, and `any` fits only itself. -/
theorem fits_decides_subtyping :
    (∀ a b : Ty, fits a b = true ↔ Subtyping a b) ∧
    (∀ a : Ty, fits a a = true) ∧
    (∀ a b c : Ty, fits a b = true → fits b c = true → fits a c = true) ∧
    (∀ a b : Ty, fits (.list a) (.list b) = true ↔ a = b) ∧
    (∀ b : Ty, fits .any b = true ↔ b = .any) := by
  refine ⟨fits_iff_subtyping, fits_refl, fun a b c h k => ?_, fun a b => ?_,
    fun b => ⟨fun h => ?_, ?_⟩⟩
  · rw [fits_iff_subtyping] at h k ⊢
    exact h.trans k
  · rw [fits, same_iff_eq]
  · rw [fits_iff_assignable] at h
    exact h.eq_any
  · rintro rfl
    exact fits_refl _

/-- A function that takes a callback and yields a list, widened in two steps: first the callback may
    take less, then the result may be anything. -/
theorem fits_decides_subtyping_callback :
    fits (.function [.function [.int] .any] (.list .int))
        (.function [.function [.any] .any] (.list .int)) = true ∧
      fits (.function [.function [.int] .any] (.list .int))
        (.function [.function [.any] .int] .any) = true := by
  have hfirst : fits (.function [.function [.int] .any] (.list .int))
      (.function [.function [.any] .any] (.list .int)) = true := by decide
  have hsecond : fits (.function [.function [.any] .any] (.list .int))
      (.function [.function [.any] .int] .any) = true := by decide
  exact ⟨hfirst, fits_decides_subtyping.2.2.1 _ _ _ hfirst hsecond⟩

end Ty

end Sema
