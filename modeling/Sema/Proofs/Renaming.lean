import Mathlib.Algebra.Group.End
import Mathlib.Logic.Equiv.Basic
import Sema.Proofs.Elaboration

/-!
# Renaming identities

Identities only tell declarations apart. `rename` replaces them throughout a resolved tree; types,
names and shape stay, and what is declared is renamed with the rest (`Stmt.declared_rename`).

Two lists of new identities of one length are images of each other under a permutation that keeps
the identities of the catalog (`exists_perm_map_eq`). So which identities the declarations of a
program have does not matter: the resolved programs are `Alike`.
-/

namespace Sema

/-! ## 1. Entities -/

namespace Decl

def Variable.rename (σ : Identity → Identity) (v : Variable) : Variable :=
  { v with identity := σ v.identity }

def Function.rename (σ : Identity → Identity) (f : Function) : Function :=
  { f with identity := σ f.identity }

def Parameter.rename (σ : Identity → Identity) (p : Parameter) : Parameter :=
  { p with identity := σ p.identity }

end Decl

namespace Entity

/-- The entity with its identity replaced; a type has none. -/
def rename (σ : Identity → Identity) : Entity → Entity
  | var v => var (v.rename σ)
  | func f => func (f.rename σ)
  | param p => param (p.rename σ)
  | type t => type t

@[simp] theorem ty_rename (σ : Identity → Identity) (e : Entity) : (e.rename σ).ty = e.ty := by
  cases e <;> rfl

theorem rename_rename (σ τ : Identity → Identity) (e : Entity) :
    (e.rename τ).rename σ = e.rename (σ ∘ τ) := by
  cases e <;> rfl

@[simp] theorem rename_id (e : Entity) : e.rename id = e := by
  cases e <;> rfl

theorem rename_eq_self {σ : Identity → Identity} {e : Entity}
    (h : ∀ i, e.identity? = some i → σ i = i) : e.rename σ = e := by
  cases e with
  | var v =>
      have hi := h v.identity rfl
      simp only [rename, Decl.Variable.rename, hi]
  | func f =>
      have hi := h f.identity rfl
      simp only [rename, Decl.Function.rename, hi]
  | param p =>
      have hi := h p.identity rfl
      simp only [rename, Decl.Parameter.rename, hi]
  | type t => rfl

end Entity

/-! ## 2. Resolved trees -/

namespace Resolved

mutual

/-- The expression with all identities replaced. -/
def Expr.rename (σ : Identity → Identity) : Expr → Expr
  | .mk form ty => .mk (form.rename σ) ty
termination_by structural e => e

/-- The form with all identities replaced. -/
def Form.rename (σ : Identity → Identity) : Form → Form
  | .int v => .int v
  | .float v => .float v
  | .bool v => .bool v
  | .str v => .str v
  | .entity e => .entity (e.rename σ)
  | .conditional t c a => .conditional (t.rename σ) (c.rename σ) (a.rename σ)
  | .logical op es => .logical op (Expr.renameAll σ es)
  | .binary op l r => .binary op (l.rename σ) (r.rename σ)
  | .unary op e => .unary op (e.rename σ)
  | .subscript l i => .subscript (l.rename σ) (i.rename σ)
  | .list es => .list (Expr.renameAll σ es)
  | .emptyList t => .emptyList t
  | .call f es => .call (f.rename σ) (Expr.renameAll σ es)
termination_by structural f => f

/-- Expressions with all identities replaced. -/
def Expr.renameAll (σ : Identity → Identity) : List Expr → List Expr
  | [] => []
  | e :: es => e.rename σ :: Expr.renameAll σ es
termination_by structural es => es

end

mutual

/-- The statement with all identities replaced. -/
def Stmt.rename (σ : Identity → Identity) : Stmt → Stmt
  | .declare v e => .declare (v.rename σ) (e.rename σ)
  | .function f ps body =>
      .function (f.rename σ) (ps.map (Decl.Parameter.rename σ)) (Stmt.renameAll σ body)
  | .step dir e => .step dir (e.rename σ)
  | .assign a e => .assign (a.rename σ) (e.rename σ)
  | .exitLoop => .exitLoop
  | .returnValue e => .returnValue (e.rename σ)
  | .returnNothing => .returnNothing
  | .branch b => .branch (b.rename σ)
  | .whileLoop e body => .whileLoop (e.rename σ) (Stmt.renameAll σ body)
  | .forEach v e body => .forEach (v.rename σ) (e.rename σ) (Stmt.renameAll σ body)
  | .eval e => .eval (e.rename σ)
termination_by structural s => s

/-- The `if` with all identities replaced. -/
def Branch.rename (σ : Identity → Identity) : Branch → Branch
  | .mk e body alternate => .mk (e.rename σ) (Stmt.renameAll σ body) (alternate.rename σ)
termination_by structural b => b

/-- What follows `else`, with all identities replaced. -/
def Alternate.rename (σ : Identity → Identity) : Alternate → Alternate
  | .none => .none
  | .block body => .block (Stmt.renameAll σ body)
  | .elseIf next => .elseIf (next.rename σ)
termination_by structural a => a

/-- Statements with all identities replaced. -/
def Stmt.renameAll (σ : Identity → Identity) : List Stmt → List Stmt
  | [] => []
  | s :: ss => s.rename σ :: Stmt.renameAll σ ss
termination_by structural ss => ss

end

theorem Expr.renameAll_eq_map (σ : Identity → Identity) :
    ∀ es : List Expr, Expr.renameAll σ es = es.map (Expr.rename σ)
  | [] => rfl
  | e :: es => by
      rw [Expr.renameAll, Expr.renameAll_eq_map σ es]
      rfl

@[simp] theorem Expr.ty_rename (σ : Identity → Identity) (e : Expr) : (e.rename σ).ty = e.ty := by
  cases e
  rfl

mutual

/-- What is declared is renamed with the rest. -/
theorem Stmt.declared_rename (σ : Identity → Identity) :
    ∀ s : Stmt, (s.rename σ).declared = s.declared.map σ
  | .declare _ _ => rfl
  | .function f ps body => by
      simp [Stmt.rename, Stmt.declared, Stmt.declaredAll_rename σ body, Decl.Function.rename,
        Decl.Parameter.rename, Function.comp_def]
  | .branch b => by
      rw [Stmt.rename, Stmt.declared, Stmt.declared, b.declared_rename σ]
  | .whileLoop _ body => by
      rw [Stmt.rename, Stmt.declared, Stmt.declared, Stmt.declaredAll_rename σ body]
  | .forEach v _ body => by
      rw [Stmt.rename, Stmt.declared, Stmt.declared, Stmt.declaredAll_rename σ body]
      rfl
  | .step _ _ | .assign _ _ | .exitLoop | .returnValue _ | .returnNothing | .eval _ => rfl

theorem Branch.declared_rename (σ : Identity → Identity) :
    ∀ b : Branch, (b.rename σ).declared = b.declared.map σ
  | .mk _ body alternate => by
      rw [Branch.rename, Branch.declared, Branch.declared, Stmt.declaredAll_rename σ body,
        alternate.declared_rename σ, List.map_append]

theorem Alternate.declared_rename (σ : Identity → Identity) :
    ∀ a : Alternate, (a.rename σ).declared = a.declared.map σ
  | .none => rfl
  | .block body => by
      rw [Alternate.rename, Alternate.declared, Alternate.declared, Stmt.declaredAll_rename σ body]
  | .elseIf next => by
      rw [Alternate.rename, Alternate.declared, Alternate.declared, next.declared_rename σ]

theorem Stmt.declaredAll_rename (σ : Identity → Identity) :
    ∀ ss : List Stmt, Stmt.declaredAll (Stmt.renameAll σ ss) = (Stmt.declaredAll ss).map σ
  | [] => rfl
  | s :: ss => by
      rw [Stmt.renameAll, Stmt.declaredAll, Stmt.declaredAll, s.declared_rename σ,
        Stmt.declaredAll_rename σ ss, List.map_append]

end

/-! ## 3. Renaming twice -/

mutual

theorem Expr.rename_rename (σ τ : Identity → Identity) :
    ∀ e : Expr, (e.rename τ).rename σ = e.rename (σ ∘ τ)
  | .mk form ty => by simp only [Expr.rename, form.rename_rename σ τ]

theorem Form.rename_rename (σ τ : Identity → Identity) :
    ∀ f : Form, (f.rename τ).rename σ = f.rename (σ ∘ τ)
  | .int _ | .float _ | .bool _ | .str _ | .emptyList _ => rfl
  | .entity e => by simp only [Form.rename, e.rename_rename σ τ]
  | .conditional t c a => by
      simp only [Form.rename, t.rename_rename σ τ, c.rename_rename σ τ, a.rename_rename σ τ]
  | .binary _ l r | .subscript l r => by
      simp only [Form.rename, l.rename_rename σ τ, r.rename_rename σ τ]
  | .unary _ e => by simp only [Form.rename, e.rename_rename σ τ]
  | .logical _ es | .list es => by simp only [Form.rename, Expr.renameAll_renameAll σ τ es]
  | .call f es => by
      simp only [Form.rename, f.rename_rename σ τ, Expr.renameAll_renameAll σ τ es]

theorem Expr.renameAll_renameAll (σ τ : Identity → Identity) :
    ∀ es : List Expr, Expr.renameAll σ (Expr.renameAll τ es) = Expr.renameAll (σ ∘ τ) es
  | [] => rfl
  | e :: es => by
      simp only [Expr.renameAll, e.rename_rename σ τ, Expr.renameAll_renameAll σ τ es]

end

mutual

theorem Stmt.rename_rename (σ τ : Identity → Identity) :
    ∀ s : Stmt, (s.rename τ).rename σ = s.rename (σ ∘ τ)
  | .declare v e => by
      simp only [Stmt.rename, e.rename_rename σ τ]
      rfl
  | .function f ps body => by
      simp only [Stmt.rename, List.map_map, Stmt.renameAll_renameAll σ τ body]
      rfl
  | .step _ e | .returnValue e | .eval e => by simp only [Stmt.rename, e.rename_rename σ τ]
  | .assign a e => by simp only [Stmt.rename, a.rename_rename σ τ, e.rename_rename σ τ]
  | .exitLoop | .returnNothing => rfl
  | .branch b => by simp only [Stmt.rename, b.rename_rename σ τ]
  | .whileLoop e body => by
      simp only [Stmt.rename, e.rename_rename σ τ, Stmt.renameAll_renameAll σ τ body]
  | .forEach v e body => by
      simp only [Stmt.rename, e.rename_rename σ τ, Stmt.renameAll_renameAll σ τ body]
      rfl

theorem Branch.rename_rename (σ τ : Identity → Identity) :
    ∀ b : Branch, (b.rename τ).rename σ = b.rename (σ ∘ τ)
  | .mk e body alternate => by
      simp only [Branch.rename, e.rename_rename σ τ, Stmt.renameAll_renameAll σ τ body,
        alternate.rename_rename σ τ]

theorem Alternate.rename_rename (σ τ : Identity → Identity) :
    ∀ a : Alternate, (a.rename τ).rename σ = a.rename (σ ∘ τ)
  | .none => rfl
  | .block body => by simp only [Alternate.rename, Stmt.renameAll_renameAll σ τ body]
  | .elseIf next => by simp only [Alternate.rename, next.rename_rename σ τ]

theorem Stmt.renameAll_renameAll (σ τ : Identity → Identity) :
    ∀ ss : List Stmt, Stmt.renameAll σ (Stmt.renameAll τ ss) = Stmt.renameAll (σ ∘ τ) ss
  | [] => rfl
  | s :: ss => by
      simp only [Stmt.renameAll, s.rename_rename σ τ, Stmt.renameAll_renameAll σ τ ss]

end

mutual

theorem Expr.rename_id : ∀ e : Expr, e.rename id = e
  | .mk form ty => by simp only [Expr.rename, form.rename_id]

theorem Form.rename_id : ∀ f : Form, f.rename id = f
  | .int _ | .float _ | .bool _ | .str _ | .emptyList _ => rfl
  | .entity e => by simp only [Form.rename, e.rename_id]
  | .conditional t c a => by simp only [Form.rename, t.rename_id, c.rename_id, a.rename_id]
  | .binary _ l r | .subscript l r => by simp only [Form.rename, l.rename_id, r.rename_id]
  | .unary _ e => by simp only [Form.rename, e.rename_id]
  | .logical _ es | .list es => by simp only [Form.rename, Expr.renameAll_id es]
  | .call f es => by simp only [Form.rename, f.rename_id, Expr.renameAll_id es]

theorem Expr.renameAll_id : ∀ es : List Expr, Expr.renameAll id es = es
  | [] => rfl
  | e :: es => by simp only [Expr.renameAll, e.rename_id, Expr.renameAll_id es]

end

mutual

theorem Stmt.rename_id : ∀ s : Stmt, s.rename id = s
  | .declare v e => by
      simp only [Stmt.rename, e.rename_id]
      rfl
  | .function f ps body => by
      have hps : ps.map (Decl.Parameter.rename id) = ps := List.map_id ps
      simp only [Stmt.rename, hps, Stmt.renameAll_id body]
      rfl
  | .step _ e | .returnValue e | .eval e => by simp only [Stmt.rename, e.rename_id]
  | .assign a e => by simp only [Stmt.rename, a.rename_id, e.rename_id]
  | .exitLoop | .returnNothing => rfl
  | .branch b => by simp only [Stmt.rename, b.rename_id]
  | .whileLoop e body => by simp only [Stmt.rename, e.rename_id, Stmt.renameAll_id body]
  | .forEach v e body => by
      simp only [Stmt.rename, e.rename_id, Stmt.renameAll_id body]
      rfl

theorem Branch.rename_id : ∀ b : Branch, b.rename id = b
  | .mk e body alternate => by
      simp only [Branch.rename, e.rename_id, Stmt.renameAll_id body, alternate.rename_id]

theorem Alternate.rename_id : ∀ a : Alternate, a.rename id = a
  | .none => rfl
  | .block body => by simp only [Alternate.rename, Stmt.renameAll_id body]
  | .elseIf next => by simp only [Alternate.rename, next.rename_id]

theorem Stmt.renameAll_id : ∀ ss : List Stmt, Stmt.renameAll id ss = ss
  | [] => rfl
  | s :: ss => by simp only [Stmt.renameAll, s.rename_id, Stmt.renameAll_id ss]

end

/-! ## 4. Programs that differ in identities -/

/-- Two resolved programs are equal up to a bijective renaming of identities that keeps those of the
    catalog. -/
def Alike (c : Catalog) (R S : Program) : Prop :=
  ∃ σ : Equiv.Perm Identity, (∀ i ∈ c.identities, σ i = i) ∧ S = Stmt.renameAll σ R

namespace Alike

variable {c : Catalog} {R S T : Program}

theorem refl (c : Catalog) (R : Program) : Alike c R R :=
  ⟨1, fun _ _ => rfl, (Stmt.renameAll_id R).symm⟩

theorem symm (h : Alike c R S) : Alike c S R := by
  obtain ⟨σ, hσ, rfl⟩ := h
  refine ⟨σ⁻¹, fun i hi => ?_, ?_⟩
  · rw [Equiv.Perm.inv_eq_iff_eq]
    exact (hσ i hi).symm
  · have hcomp : (⇑σ⁻¹ ∘ ⇑σ : Identity → Identity) = id := by
      funext i
      exact σ.symm_apply_apply i
    rw [Stmt.renameAll_renameAll, hcomp, Stmt.renameAll_id]

theorem trans (h : Alike c R S) (k : Alike c S T) : Alike c R T := by
  obtain ⟨σ, hσ, rfl⟩ := h
  obtain ⟨τ, hτ, rfl⟩ := k
  refine ⟨τ * σ, fun i hi => ?_, ?_⟩
  · rw [Equiv.Perm.mul_apply, hσ i hi, hτ i hi]
  · rw [Stmt.renameAll_renameAll, Equiv.Perm.coe_mul]

end Alike

end Resolved

/-- **New identities can be exchanged for other new ones.** Two lists of one length, each without
    repetition and apart from `kept`, are images of each other under a permutation that keeps
    `kept`. -/
theorem exists_perm_map_eq {kept : List Identity} : ∀ {as bs : List Identity},
    as.length = bs.length → as.Nodup → bs.Nodup → (∀ i ∈ as, i ∉ kept) → (∀ i ∈ bs, i ∉ kept) →
    ∃ σ : Equiv.Perm Identity, (∀ i ∈ kept, σ i = i) ∧ as.map σ = bs
  | [], [], _, _, _, _, _ => ⟨1, fun _ _ => rfl, rfl⟩
  | a :: as, b :: bs, hlen, ha, hb, hka, hkb => by
      rw [List.nodup_cons] at ha hb
      rw [List.forall_mem_cons] at hka hkb
      obtain ⟨σ, hσ, hmap⟩ := exists_perm_map_eq (Nat.succ.inj hlen) ha.2 hb.2 hka.2 hkb.2
      -- afterwards the image of `a` and `b` are exchanged, which moves nothing that is in its place
      have hmem : ∀ i ∈ as, σ i ∈ bs := fun i hi => hmap ▸ List.mem_map_of_mem hi
      refine ⟨Equiv.swap (σ a) b * σ, fun i hi => ?_, ?_⟩
      · rw [Equiv.Perm.mul_apply, hσ i hi]
        refine Equiv.swap_apply_of_ne_of_ne ?_ ?_
        · intro he
          rw [← hσ i hi] at he
          exact hka.1 (σ.injective he ▸ hi)
        · rintro rfl
          exact hkb.1 hi
      · rw [List.map_cons]
        congr 1
        · rw [Equiv.Perm.mul_apply, Equiv.swap_apply_left]
        · rw [← hmap]
          refine List.map_congr_left fun i hi => ?_
          rw [Equiv.Perm.mul_apply]
          refine Equiv.swap_apply_of_ne_of_ne ?_ ?_
          · intro he
            exact ha.1 (σ.injective he ▸ hi)
          · intro he
            exact hb.1 (he ▸ hmem i hi)

end Sema
