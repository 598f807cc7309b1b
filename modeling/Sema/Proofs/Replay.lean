import Sema.Proofs.Stack

/-!
# Reading the events back

Whoever sees the events of an analysis and nothing else can keep a `Ledger`: for each open scope,
from the root on, the names declared in it with the spellings of their types. Three kinds of events
change it (`Ledger.note`), and four kinds say something about it that can be checked where they are
met (`Ledger.Admits`):

* a scope is opened under the next number, and the last one is closed under its own, never the root;
* a name is declared in an open scope that does not have it yet;
* a name is resolved in the highest scope that has it.

The open scopes have a ledger of their own (`Scopes.ledger`). Each operation on them is seen there
as the event that it records (`Scopes.ledger_enter`, `Scopes.ledger_of_exit`,
`Scopes.ledger_of_defineIn`, `Scopes.admits_resolved`).
-/

namespace Sema

/-! ## 1. Ledgers -/

/-- What the events tell about the open scopes, the root first: the names of each one, with the
    spellings of their types, the newest first. -/
abbrev Ledger := List (List (String × String))

namespace Ledger

/-- Nothing is known but that there is a root. -/
def start : Ledger := [[]]

/-- A scope has a name. -/
def Declares (l : Ledger) (i : Nat) (x : String) : Prop :=
  ∃ scope, l[i]? = some scope ∧ x ∈ scope.map Prod.fst

/-- What an event adds to a ledger. -/
def note (l : Ledger) : Event → Ledger
  | .declared i x t => l.modify i ((x, t.text) :: ·)
  | .entered _ _ => l ++ [[]]
  | .exited _ => l.dropLast
  | _ => l

/-- The ledger after some events. -/
def replay (l : Ledger) (events : List Event) : Ledger := events.foldl note l

/-- What an event says about scopes is so. -/
def Admits (l : Ledger) : Event → Prop
  | .declared i x _ => i < l.length ∧ ¬ l.Declares i x
  | .entered i _ => i = l.length
  | .exited i => 0 < i ∧ i + 1 = l.length
  | .resolved x i => l.Declares i x ∧ ∀ j, i < j → ¬ l.Declares j x
  | _ => True

/-- Each event says what is so when it is met. -/
def Accepts (l : Ledger) : List Event → Prop
  | [] => True
  | e :: es => l.Admits e ∧ Accepts (l.note e) es

theorem replay_append (l : Ledger) (es fs : List Event) :
    l.replay (es ++ fs) = (l.replay es).replay fs := List.foldl_append ..

theorem accepts_append (l : Ledger) (es fs : List Event) :
    l.Accepts (es ++ fs) ↔ l.Accepts es ∧ (l.replay es).Accepts fs := by
  induction es generalizing l with
  | nil => simp [Accepts, replay]
  | cons e es ih => simp only [List.cons_append, Accepts, ih, and_assoc, replay, List.foldl_cons]

/-- Event by event: each one is admitted by the ledger of those before it. -/
theorem Accepts.admits {l : Ledger} {before after : List Event} {e : Event}
    (h : l.Accepts (before ++ e :: after)) : (l.replay before).Admits e :=
  ((l.accepts_append before (e :: after)).mp h).2.1

end Ledger

/-! ## 2. The ledger of the open scopes -/

/-- The names of a scope, with the spellings of their types. -/
def Frame.page (f : Frame) : List (String × String) :=
  f.bindings.map fun b => (b.1, b.2.ty.text)

theorem Frame.mem_page {f : Frame} {x : String} :
    x ∈ f.page.map Prod.fst ↔ f.declares x = true := by
  rw [Frame.declares, Frame.find?, List.lookup_isSome_iff]
  simp [Frame.page]

namespace Scopes

/-- The ledger in which the open scopes stand. -/
def ledger (s : Scopes) : Ledger := s.frames.reverse.map Frame.page

theorem length_ledger (s : Scopes) : s.ledger.length = s.depth + 1 := by
  simp [ledger, length_frames]

theorem getElem?_ledger (s : Scopes) (i : Nat) : s.ledger[i]? = (s.frame? i).map Frame.page := by
  rw [ledger, List.getElem?_map, frame?_eq_getElem?]

theorem declares_ledger {s : Scopes} {i : Nat} {x : String} :
    s.ledger.Declares i x ↔ ∃ f, s.frame? i = some f ∧ f.declares x = true := by
  unfold Ledger.Declares
  rw [getElem?_ledger]
  constructor
  · intro h
    obtain ⟨scope, hscope, hx⟩ := h
    obtain ⟨f, hf, rfl⟩ := Option.map_eq_some_iff.mp hscope
    exact ⟨f, hf, Frame.mem_page.mp hx⟩
  · intro h
    obtain ⟨f, hf, hx⟩ := h
    exact ⟨f.page, by rw [hf]; rfl, Frame.mem_page.mpr hx⟩

/-- A new scope has no names yet. -/
theorem ledger_enter (s : Scopes) (kind : ScopeKind) :
    (s.enter kind).ledger = s.ledger ++ [[]] := by
  cases kind <;> simp [ledger, enter, frames, Frame.child, Frame.page]

theorem ledger_of_exit {s t : Scopes} (h : s.exit? = .ok t) : t.ledger = s.ledger.dropLast := by
  obtain ⟨inner, outer⟩ := s
  obtain rfl : outer = t.inner :: t.outer := exit?_eq_ok.mp h
  simp [ledger, frames]

/-- **A declaration is seen as an entry of its scope.** -/
theorem ledger_of_defineIn {s t : Scopes} {i : Nat} {x : String} {e : Entity}
    (h : s.defineIn i x e = .ok t) :
    t.ledger = s.ledger.modify i ((x, e.ty.text) :: ·) := by
  obtain ⟨f, hf, -, rfl⟩ := defineIn_eq_ok.mp h
  refine List.ext_getElem? fun j => ?_
  rw [getElem?_ledger, frame?_modify, List.getElem?_modify, getElem?_ledger]
  by_cases hj : j = i
  · subst hj
    rw [if_pos rfl, hf]
    simp [Frame.page, Frame.bind]
  · simp [hj, Ne.symm hj]

theorem admits_declared {s t : Scopes} {i : Nat} {x : String} {e : Entity}
    (h : s.defineIn i x e = .ok t) : s.ledger.Admits (.declared i x e.ty) := by
  obtain ⟨f, hf, hfree, -⟩ := defineIn_eq_ok.mp h
  have hi := le_depth_of_frame? hf
  refine ⟨by rw [length_ledger]; omega, fun hdeclares => ?_⟩
  obtain ⟨g, hg, hx⟩ := declares_ledger.mp hdeclares
  obtain rfl : f = g := Option.some.inj (hf.symm.trans hg)
  rw [hfree] at hx
  cases hx

/-- **A name is found in the highest scope that has it.** -/
theorem admits_resolved {s : Scopes} {x : String} {i : Nat} {e : Entity}
    (h : s.locate? x = some (i, e)) : s.ledger.Admits (.resolved x i) := by
  obtain ⟨⟨f, hf, hfind⟩, habove⟩ := locate?_eq_some.mp h
  refine ⟨declares_ledger.mpr ⟨f, hf, by rw [Frame.declares, hfind]; rfl⟩, fun j hj hdeclares => ?_⟩
  obtain ⟨g, hg, hx⟩ := declares_ledger.mp hdeclares
  rw [Frame.declares, habove j g hj hg] at hx
  cases hx

end Scopes

end Sema
