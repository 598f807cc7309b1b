import Sema.Ty.Basic

/-!
# Assignability

`a.fits b` says that a value of type `a` may be stored where a `b` is expected:

* everything fits `any`;
* a function type fits another of the same arity when its result fits the other's result and each
  parameter of the other fits its own;
* otherwise the two types have to be the same (`Ty.same`): plain types when they are equal, lists
  when their elements are the same, functions when each fits the other.

The parameters of a function turn the direction round, so the relation is defined together with its
reverse: `a.admits b` says that `b` fits `a` (`Ty.admits_eq`), and both recurse on `a`.
-/

namespace Sema

namespace Ty

/-! ## 1. The relations -/

mutual

/-- A value of type `a` may be stored where a `b` is expected. -/
def fits : Ty → Ty → Bool
  | _, any => true
  | function ps r, function qs s => fits r s && admitsAll ps qs
  | list a, list b => same a b
  | bool, bool | int, int | float, float | str, str | void, void | type, type => true
  | _, _ => false
termination_by structural a => a

/-- A value of type `b` may be stored where an `a` is expected. -/
def admits : Ty → Ty → Bool
  | any, _ => true
  | function ps r, function qs s => admits r s && fitsAll ps qs
  | list a, list b => same a b
  | bool, bool | int, int | float, float | str, str | void, void | type, type => true
  | _, _ => false
termination_by structural a => a

/-- Equivalence: lists by their elements, functions by fitting each other, all else by equality. -/
def same : Ty → Ty → Bool
  | list a, list b => same a b
  | function ps r, function qs s =>
      (fits r s && admitsAll ps qs) && (admits r s && fitsAll ps qs)
  | bool, bool | int, int | float, float | str, str | void, void | type, type | any, any => true
  | _, _ => false
termination_by structural a => a

/-- Each type fits the one at its place, and there are equally many. -/
def fitsAll : List Ty → List Ty → Bool
  | [], [] => true
  | a :: as, b :: bs => fits a b && fitsAll as bs
  | _, _ => false
termination_by structural a => a

/-- Each type admits the one at its place, and there are equally many. -/
def admitsAll : List Ty → List Ty → Bool
  | [], [] => true
  | a :: as, b :: bs => admits a b && admitsAll as bs
  | _, _ => false
termination_by structural a => a

end

/-! ## 2. Both directions -/

mutual

/-- **`admits` is `fits` the other way round.** -/
theorem admits_eq : ∀ a b : Ty, admits a b = fits b a
  | any, b => by cases b <;> simp [admits, fits]
  | list a, b => by
      cases b with
      | list b => simp [admits, fits, same_comm a b]
      | _ => simp [admits, fits]
  | function ps r, b => by
      cases b with
      | function qs s => simp [admits, fits, admits_eq r s, fitsAll_eq ps qs]
      | _ => simp [admits, fits]
  | bool, b | int, b | float, b | str, b | void, b | type, b => by
      cases b <;> simp [admits, fits]

theorem fits_eq : ∀ a b : Ty, fits a b = admits b a
  | any, b => by cases b <;> simp [admits, fits]
  | list a, b => by
      cases b with
      | list b => simp [admits, fits, same_comm a b]
      | _ => simp [admits, fits]
  | function ps r, b => by
      cases b with
      | function qs s => simp [admits, fits, fits_eq r s, admitsAll_eq ps qs]
      | _ => simp [admits, fits]
  | bool, b | int, b | float, b | str, b | void, b | type, b => by
      cases b <;> simp [admits, fits]

theorem same_comm : ∀ a b : Ty, same a b = same b a
  | list a, b => by
      cases b with
      | list b => simp [same, same_comm a b]
      | _ => simp [same]
  | function ps r, b => by
      cases b with
      | function qs s =>
          simp [same, fits_eq r s, admits_eq r s, admitsAll_eq ps qs, fitsAll_eq ps qs,
            Bool.and_comm]
      | _ => simp [same]
  | bool, b | int, b | float, b | str, b | void, b | type, b | any, b => by
      cases b <;> simp [same]

theorem fitsAll_eq : ∀ as bs : List Ty, fitsAll as bs = admitsAll bs as
  | [], bs => by cases bs <;> simp [fitsAll, admitsAll]
  | a :: as, bs => by
      cases bs with
      | nil => simp [fitsAll, admitsAll]
      | cons b bs => simp [fitsAll, admitsAll, fits_eq a b, fitsAll_eq as bs]

theorem admitsAll_eq : ∀ as bs : List Ty, admitsAll as bs = fitsAll bs as
  | [], bs => by cases bs <;> simp [fitsAll, admitsAll]
  | a :: as, bs => by
      cases bs with
      | nil => simp [fitsAll, admitsAll]
      | cons b bs => simp [fitsAll, admitsAll, admits_eq a b, admitsAll_eq as bs]

end

/-- Function types are the same when each fits the other. -/
theorem same_function (ps qs : List Ty) (r s : Ty) :
    same (function ps r) (function qs s) =
      (fits (function ps r) (function qs s) && fits (function qs s) (function ps r)) := by
  rw [← admits_eq (function ps r) (function qs s)]
  rfl

/-! ## 3. Reflexivity -/

mutual

theorem fits_refl : ∀ a : Ty, fits a a = true
  | any | bool | int | float | str | void | type => by simp [fits]
  | list a => by simp [fits, same_refl a]
  | function ps r => by simp [fits, fits_refl r, admitsAll_refl ps]

theorem same_refl : ∀ a : Ty, same a a = true
  | any | bool | int | float | str | void | type => by simp [same]
  | list a => by simp [same, same_refl a]
  | function ps r => by
      simp [same, fits_refl r, admits_eq r r, admitsAll_refl ps, fitsAll_eq ps ps]

theorem admitsAll_refl : ∀ as : List Ty, admitsAll as as = true
  | [] => by simp [admitsAll]
  | a :: as => by simp [admitsAll, admits_eq a a, fits_refl a, admitsAll_refl as]

end

end Ty

/-- A function with signature `s` may stand where one with signature `t` is expected. -/
def Signature.fits (s t : Signature) : Bool := s.ty.fits t.ty

end Sema
