import Mathlib.Data.List.Basic
import Sema.Project.FileSystem

/-!
# Files that are written

All that a reader sees of a place is whether there is nothing, a directory, or a file with its bytes
(`Outline`). Writing a file changes this at one place only (`FileSystem.Written`): a path leads to
the file afterwards, every path that led somewhere before still leads there, and what is seen at the
end of all others is as it was.

So a text is read back from where it was written (`FileSystem.readText?_writeFile`), and files that
the path does not lead to stay the same (`FileSystem.same_of_writeFile`).
-/

namespace Sema

/-! ## 1. What is seen in a tree -/

/-- What is seen of a place in a tree. -/
inductive Outline where
  | nothing
  | directory
  | file (bytes : ByteArray)

namespace Outline

/-- What is seen of a node, or where there is none. -/
def of : Option FileNode → Outline
  | none => nothing
  | some (.directory _) => directory
  | some (.file bytes) => file bytes

/-- Whether there is something. -/
def isPresent : Outline → Bool
  | nothing => false
  | _ => true

/-- The bytes of a file. -/
def bytes? : Outline → Option ByteArray
  | file bytes => some bytes
  | _ => none

theorem of_eq_directory_iff {node : Option FileNode} :
    of node = directory ↔ ∃ entries, node = some (.directory entries) := by
  rcases node with _ | _ | _ <;> simp [of]

theorem isPresent_of (node : Option FileNode) : (of node).isPresent = node.isSome := by
  rcases node with _ | _ | _ <;> rfl

end Outline

namespace FileNode

/-- What is seen at the end of a list of names. -/
def outline (node : FileNode) (names : List String) : Outline := .of (node.get? names)

theorem lookup_filter_ne {name other : String} (h : other ≠ name) :
    ∀ entries : List (String × FileNode),
      (entries.filter fun e => e.1 != name).lookup other = entries.lookup other
  | [] => rfl
  | (x, node) :: entries => by
      have ih := lookup_filter_ne h entries
      by_cases hx : x = name
      · have hox : (other == x) = false := by simp [hx, h]
        rw [List.filter_cons_of_neg (by simp [hx]), ih, List.lookup_cons, hox]
      · rw [List.filter_cons_of_pos (by simp [hx]), List.lookup_cons, List.lookup_cons, ih]

theorem lookup_setEntry (entries : List (String × FileNode)) (name other : String)
    (node : FileNode) :
    (setEntry entries name (some node)).lookup other =
      if other = name then some node else entries.lookup other := by
  rw [setEntry, List.lookup_cons]
  by_cases h : other = name
  · simp [h]
  · have hne : (other == name) = false := by simp [h]
    rw [hne, if_neg h]
    exact lookup_filter_ne h entries

theorem outline_directory_cons (entries : List (String × FileNode)) (name : String)
    (names : List String) :
    (directory entries).outline (name :: names) =
      match entries.lookup name with
      | some next => next.outline names
      | none => .nothing := by
  unfold outline
  rw [get?]
  cases entries.lookup name <;> rfl

theorem outline_setEntry_cons (entries : List (String × FileNode)) (name : String)
    (node : FileNode) (x : String) (xs : List String) :
    (directory (setEntry entries name (some node))).outline (x :: xs) =
      if x = name then node.outline xs else (directory entries).outline (x :: xs) := by
  rw [outline_directory_cons, outline_directory_cons, lookup_setEntry]
  by_cases hx : x = name
  · rw [if_pos hx, if_pos hx]
  · rw [if_neg hx, if_neg hx]

theorem exists_entries {node : FileNode} : ∀ {names : List String},
    node.outline names = .directory → ∃ entries, node = .directory entries := by
  intro names h
  cases node with
  | file bytes => cases names <;> cases h
  | directory entries => exact ⟨entries, rfl⟩

theorem set_of_lookup {entries : List (String × FileNode)} {x : String} {next : FileNode}
    (h : entries.lookup x = some next) (new : Option FileNode) (names : List String)
    (name : String) :
    (directory entries).set new (x :: (names ++ [name])) =
      .directory (setEntry entries x (some (next.set new (names ++ [name])))) := by
  cases names <;> simp [set, h]

theorem get?_append (names more : List String) (node : FileNode) :
    node.get? (names ++ more) = (node.get? names).bind fun n => n.get? more := by
  induction names generalizing node with
  | nil => rfl
  | cons name names ih =>
      cases node with
      | file bytes => rfl
      | directory entries =>
          rw [List.cons_append, get?, get?]
          cases entries.lookup name with
          | none => rfl
          | some next => exact ih next

/-- Below a place where there is no directory there is nothing. -/
theorem outline_append_of_ne {node : FileNode} {names : List String}
    (h : node.outline names ≠ .directory) (x : String) (xs : List String) :
    node.outline (names ++ x :: xs) = .nothing := by
  unfold outline at h ⊢
  rw [get?_append]
  cases hn : node.get? names with
  | none => rfl
  | some next =>
      cases next with
      | file bytes => rfl
      | directory entries =>
          rw [hn] at h
          exact absurd rfl h

/-- **A file that is written is seen where it was put, and nothing else changes.** The directory has
    to be there, and no directory may have the name. -/
theorem outline_set (bytes : ByteArray) (names : List String) (name : String) (node : FileNode)
    (hdir : node.outline names = .directory) (hnot : node.outline (names ++ [name]) ≠ .directory)
    (other : List String) :
    (node.set (some (.file bytes)) (names ++ [name])).outline other =
      if other = names ++ [name] then .file bytes else node.outline other := by
  induction names generalizing node other with
  | nil =>
      obtain ⟨entries, rfl⟩ := exists_entries hdir
      rw [List.nil_append] at hnot ⊢
      show (directory (setEntry entries name (some (.file bytes)))).outline other = _
      cases other with
      | nil => rfl
      | cons x xs =>
          rw [outline_setEntry_cons]
          by_cases hx : x = name
          · rw [if_pos hx, hx]
            cases xs with
            | nil => rw [if_pos rfl]; rfl
            | cons y ys =>
                rw [if_neg (by simp)]
                exact (outline_append_of_ne hnot y ys).symm
          · rw [if_neg hx, if_neg (fun h => hx (List.cons.inj h).1)]
  | cons n names ih =>
      obtain ⟨entries, rfl⟩ := exists_entries hdir
      rw [outline_directory_cons] at hdir
      rw [List.cons_append, outline_directory_cons] at hnot
      cases hn : entries.lookup n with
      | none =>
          rw [hn] at hdir
          cases hdir
      | some next =>
          rw [hn] at hdir hnot
          rw [List.cons_append, set_of_lookup hn]
          cases other with
          | nil => rfl
          | cons x xs =>
              rw [outline_setEntry_cons]
              by_cases hx : x = n
              · rw [if_pos hx, hx, ih next hdir hnot, outline_directory_cons, hn]
                simp only [List.cons.injEq, true_and]
              · rw [if_neg hx, if_neg (fun h => hx (List.cons.inj h).1)]

end FileNode

theorem bind_eq_ok_iff {ε α β : Type} {x : Except ε α} {f : α → Except ε β} {b : β} :
    x >>= f = .ok b ↔ ∃ a, x = .ok a ∧ f a = .ok b := by
  cases x <;> simp [bind, Except.bind]

namespace FileSystem

/-! ## 2. Following paths by what is seen -/

/-- What is seen at a position. -/
def outline (fs : FileSystem) (p : Position) : Outline := .of (fs.node? p)

/-- A segment leads on from a directory: it stays there, goes up, or goes down to something that is
    there. -/
inductive Leads (fs : FileSystem) (p : Position) : String → Position → Prop
  | stay {s : String} : fs.outline p = .directory → Path.isIdle s = true → Leads fs p s p
  | up : fs.outline p = .directory → Leads fs p ".." p.up
  | down {s : String} : fs.outline p = .directory → Path.isIdle s = false → s ≠ ".." →
      s.utf8ByteSize ≤ maxName → p.lost = 0 → (fs.outline ⟨p.names ++ [s], 0⟩).isPresent = true →
      Leads fs p s ⟨p.names ++ [s], 0⟩

/-- The entries of a directory are what is seen below it. -/
theorem lookup_isSome_iff {fs : FileSystem} {p : Position} {entries : List (String × FileNode)}
    (h : fs.node? p = some (.directory entries)) (s : String) :
    (entries.lookup s).isSome = true ↔
      p.lost = 0 ∧ (fs.outline ⟨p.names ++ [s], 0⟩).isPresent = true := by
  unfold node? at h
  by_cases hlost : p.lost = 0
  · rw [if_pos hlost] at h
    have hget : fs.root.get? (p.names ++ [s]) = entries.lookup s := by
      rw [FileNode.get?_append, h]
      show FileNode.get? (.directory entries) [s] = _
      rw [FileNode.get?]
      cases entries.lookup s <;> rfl
    have houtline : fs.outline ⟨p.names ++ [s], 0⟩ = .of (fs.root.get? (p.names ++ [s])) := rfl
    rw [houtline, hget, Outline.isPresent_of, and_iff_right hlost]
  · rw [if_neg hlost] at h
    cases h
    simp [hlost]

theorem follow_eq_ok_iff {fs : FileSystem} {p q : Position} {s : String} :
    fs.follow p s = .ok q ↔ fs.Leads p s q := by
  constructor
  · intro h
    unfold follow at h
    split at h
    · cases h
    · cases h
    · rename_i entries hnode
      have hdir := Outline.of_eq_directory_iff.mpr ⟨entries, hnode⟩
      split_ifs at h with hidle hup hlong
      · cases h
        exact .stay hdir hidle
      · cases h
        rw [hup]
        exact .up hdir
      · cases hlookup : entries.lookup s with
        | none =>
            rw [hlookup] at h
            cases h
        | some node =>
            rw [hlookup] at h
            cases h
            obtain ⟨hlost, hpresent⟩ := (lookup_isSome_iff hnode s).mp (by rw [hlookup]; rfl)
            exact .down hdir (by simpa using hidle) hup (Nat.le_of_not_lt hlong) hlost hpresent
  · rintro (⟨hdir, hidle⟩ | ⟨hdir⟩ | ⟨hdir, hidle, hup, hlength, hlost, hpresent⟩) <;>
      obtain ⟨entries, hnode⟩ := Outline.of_eq_directory_iff.mp hdir <;>
      unfold follow <;> rw [hnode]
    · exact if_pos hidle
    · rfl
    · obtain ⟨node, hlookup⟩ :=
        Option.isSome_iff_exists.mp ((lookup_isSome_iff hnode s).mpr ⟨hlost, hpresent⟩)
      simp [hidle, hup, Nat.not_lt.mpr hlength, hlookup]

/-- A name that nothing has is refused as such only if it is not too long. -/
theorem length_le_of_follow_notFound {fs : FileSystem} {p : Position} {s : String}
    (hdir : fs.outline p = .directory) (h : fs.follow p s = .error .notFound) :
    s.utf8ByteSize ≤ maxName := by
  obtain ⟨entries, hnode⟩ := Outline.of_eq_directory_iff.mp hdir
  refine Nat.le_of_not_lt (fun hlong => ?_)
  unfold follow at h
  rw [hnode] at h
  split_ifs at h
  all_goals cases h

theorem followAll_cons_eq_ok {fs : FileSystem} {p q : Position} {s : String} {ss : List String} :
    fs.followAll p (s :: ss) = .ok q ↔ ∃ r, fs.Leads p s r ∧ fs.followAll r ss = .ok q := by
  rw [followAll, bind_eq_ok_iff]
  simp only [follow_eq_ok_iff]

theorem followAll_append {fs : FileSystem} {q : Position} {ss ts : List String} (p : Position) :
    fs.followAll p (ss ++ ts) = .ok q ↔
      ∃ r, fs.followAll p ss = .ok r ∧ fs.followAll r ts = .ok q := by
  induction ss generalizing p with
  | nil => exact ⟨fun h => ⟨p, rfl, h⟩, fun ⟨_, hr, h⟩ => by cases hr; exact h⟩
  | cons s ss ih =>
      simp only [List.cons_append, followAll_cons_eq_ok, ih]
      constructor
      · rintro ⟨r, hr, m, hm, h⟩
        exact ⟨m, ⟨r, hr, hm⟩, h⟩
      · rintro ⟨m, ⟨r, hr, hm⟩, h⟩
        exact ⟨r, hr, m, hm, h⟩

/-! ## 3. Writing -/

/-- From `fs` to `fs'` a file has been written at a place where there was no directory. -/
structure Written (fs fs' : FileSystem) (place : Position) (bytes : ByteArray) : Prop where
  current : fs'.current = fs.current
  noDirectory : fs.outline place ≠ .directory
  here : fs'.outline place = .file bytes
  elsewhere : ∀ p, p ≠ place → fs'.outline p = fs.outline p

section Written

variable {fs fs' : FileSystem} {place : Position} {bytes : ByteArray}

theorem Written.outline_eq_directory_iff (h : Written fs fs' place bytes) {p : Position} :
    fs'.outline p = .directory ↔ fs.outline p = .directory := by
  by_cases hp : p = place
  · subst hp
    simp [h.here, h.noDirectory]
  · rw [h.elsewhere p hp]

/-- What led on before leads on. -/
theorem Written.leads (h : Written fs fs' place bytes) {p q : Position} {s : String}
    (hleads : fs.Leads p s q) : fs'.Leads p s q := by
  rcases hleads with ⟨hdir, hidle⟩ | ⟨hdir⟩ | ⟨hdir, hidle, hup, hlength, hlost, hpresent⟩
  · exact .stay (h.outline_eq_directory_iff.mpr hdir) hidle
  · exact .up (h.outline_eq_directory_iff.mpr hdir)
  · refine .down (h.outline_eq_directory_iff.mpr hdir) hidle hup hlength hlost ?_
    by_cases hq : Position.mk (p.names ++ [s]) 0 = place
    · rw [hq, h.here]
      rfl
    · rwa [h.elsewhere _ hq]

/-- What leads on now did so before, unless it leads to the file. -/
theorem Written.leads_of_ne (h : Written fs fs' place bytes) {p q : Position} {s : String}
    (hleads : fs'.Leads p s q) (hq : q ≠ place) : fs.Leads p s q := by
  rcases hleads with ⟨hdir, hidle⟩ | ⟨hdir⟩ | ⟨hdir, hidle, hup, hlength, hlost, hpresent⟩
  · exact .stay (h.outline_eq_directory_iff.mp hdir) hidle
  · exact .up (h.outline_eq_directory_iff.mp hdir)
  · rw [h.elsewhere _ hq] at hpresent
    exact .down (h.outline_eq_directory_iff.mp hdir) hidle hup hlength hlost hpresent

theorem Leads.directory {p q : Position} {s : String} (h : fs.Leads p s q) :
    fs.outline p = .directory := by
  cases h <;> assumption

theorem Written.followAll (h : Written fs fs' place bytes) {q : Position} {ss : List String}
    (p : Position) (hq : fs.followAll p ss = .ok q) : fs'.followAll p ss = .ok q := by
  induction ss generalizing p with
  | nil => exact hq
  | cons s ss ih =>
      obtain ⟨r, hr, hrest⟩ := followAll_cons_eq_ok.mp hq
      exact followAll_cons_eq_ok.mpr ⟨r, h.leads hr, ih r hrest⟩

/-- No path leads through a file, so those that lead elsewhere are the same as before. -/
theorem Written.followAll_of_ne (h : Written fs fs' place bytes) {q : Position} {ss : List String}
    (p : Position) (hq : fs'.followAll p ss = .ok q) (hne : q ≠ place) :
    fs.followAll p ss = .ok q := by
  induction ss generalizing p with
  | nil => exact hq
  | cons s ss ih =>
      obtain ⟨r, hr, hrest⟩ := followAll_cons_eq_ok.mp hq
      have hr' : r ≠ place := by
        rintro rfl
        cases ss with
        | nil =>
            cases hrest
            exact hne rfl
        | cons s' ss =>
            obtain ⟨_, hnext, _⟩ := followAll_cons_eq_ok.mp hrest
            have hdir := hnext.directory
            rw [h.here] at hdir
            cases hdir
      exact followAll_cons_eq_ok.mpr ⟨r, h.leads_of_ne hr hr', ih r hrest⟩

end Written

theorem locate_eq_ok_iff {fs : FileSystem} {path : Path} {q : Position} :
    fs.locate path = .ok q ↔
      admissible path = .ok () ∧ fs.followAll (fs.origin path).1 (fs.origin path).2 = .ok q := by
  rw [locate, bind_eq_ok_iff]
  exact ⟨fun ⟨_, hadm, h⟩ => ⟨hadm, h⟩, fun ⟨hadm, h⟩ => ⟨(), hadm, h⟩⟩

/-- Where the last segment is not empty, none is left out at the end. -/
theorem eq_concat_of_dropWhile {segments before : List String} {last : String}
    (hdrop : (segments.reverse.dropWhile fun s => s = "") = last :: before)
    (hlast : segments.getLast? ≠ some "") : last ≠ "" ∧ segments = before.reverse ++ [last] := by
  rcases List.eq_nil_or_concat' segments with rfl | ⟨init, x, rfl⟩
  · cases hdrop
  · have hx : x ≠ "" := by
      rintro rfl
      exact hlast List.getLast?_concat
    rw [List.reverse_append, List.reverse_singleton, List.singleton_append,
      List.dropWhile_cons_of_neg (by simp [hx])] at hdrop
    obtain ⟨rfl, rfl⟩ := List.cons.inj hdrop
    exact ⟨hx, by rw [List.reverse_reverse]⟩

/-- Where a file is to be written: the last segment of the path is its name, and what comes before
    leads to a directory. -/
theorem holder_eq_ok {fs : FileSystem} {path : Path} {p : Position} {name : String}
    (h : fs.holder path false = .ok (p, name)) :
    admissible path = .ok () ∧ name ≠ "" ∧ fs.outline p = .directory ∧
      ∃ before, (fs.origin path).2 = before ++ [name] ∧
        fs.followAll (fs.origin path).1 before = .ok p := by
  rw [holder, bind_eq_ok_iff] at h
  obtain ⟨_, hadm, h⟩ := h
  refine ⟨hadm, ?_⟩
  cases horigin : fs.origin path with
  | mk start segments =>
  rw [horigin] at h
  cases hdrop : segments.reverse.dropWhile fun s => s = "" with
  | nil =>
      simp only [hdrop] at h
      cases h
  | cons last before =>
      simp only [hdrop] at h
      obtain ⟨r, hr, h⟩ := bind_eq_ok_iff.mp h
      obtain ⟨node, hnode, h⟩ := bind_eq_ok_iff.mp h
      cases node with
      | file bytes => cases h
      | directory entries =>
          have hdir : fs.node? r = some (.directory entries) := by
            cases hr : fs.node? r <;> rw [hr] at hnode <;> cases hnode
            rfl
          simp only [Bool.not_false, Bool.true_and, decide_eq_true_eq] at h
          split_ifs at h with hlast
          cases h
          obtain ⟨hname, hsegments⟩ := eq_concat_of_dropWhile hdrop hlast
          have houtline := Outline.of_eq_directory_iff.mpr ⟨entries, hdir⟩
          exact ⟨hname, houtline, before.reverse, hsegments, hr⟩

/-- The tree with a file in a directory. -/
theorem written_set {fs : FileSystem} {p : Position} {name : String} (bytes : ByteArray)
    (hdir : fs.outline p = .directory) (hlost : p.lost = 0)
    (hnot : fs.outline ⟨p.names ++ [name], 0⟩ ≠ .directory) :
    Written fs { fs with root := fs.root.set (some (.file bytes)) (p.names ++ [name]) }
      ⟨p.names ++ [name], 0⟩ bytes := by
  rw [outline, node?, if_pos hlost] at hdir
  have hset := FileNode.outline_set bytes p.names name fs.root hdir hnot
  refine ⟨rfl, hnot, ?_, fun q hq => ?_⟩
  · show FileNode.outline _ _ = _
    rw [hset, if_pos rfl]
  · unfold outline node?
    by_cases hq0 : q.lost = 0
    · rw [if_pos hq0, if_pos hq0]
      refine (hset q.names).trans (if_neg ?_)
      rintro hnames
      exact hq (by cases q; simp_all)
    · rw [if_neg hq0, if_neg hq0]

/-- After that a path to the directory, with the name behind it, leads to the file. -/
theorem Written.locate {fs fs' : FileSystem} {path : Path} {p : Position} {before : List String}
    {name : String} {bytes : ByteArray} (h : Written fs fs' ⟨p.names ++ [name], 0⟩ bytes)
    (hadm : admissible path = .ok ()) (hsegments : (fs.origin path).2 = before ++ [name])
    (hbefore : fs.followAll (fs.origin path).1 before = .ok p) (hdir : fs.outline p = .directory)
    (hlost : p.lost = 0) (hidle : Path.isIdle name = false) (hup : name ≠ "..")
    (hlength : name.utf8ByteSize ≤ maxName) : fs'.locate path = .ok ⟨p.names ++ [name], 0⟩ := by
  have horigin : fs'.origin path = fs.origin path := by rw [origin, origin, h.current]
  have hpresent : (fs'.outline ⟨p.names ++ [name], 0⟩).isPresent = true := by rw [h.here]; rfl
  have hleads : fs'.Leads p name ⟨p.names ++ [name], 0⟩ :=
    .down (h.outline_eq_directory_iff.mpr hdir) hidle hup hlength hlost hpresent
  rw [locate_eq_ok_iff, horigin, hsegments, followAll_append]
  exact ⟨hadm, p, h.followAll _ hbefore, followAll_cons_eq_ok.mpr ⟨_, hleads, rfl⟩⟩

/-- **What writing does**: the path leads to the file afterwards, and nothing else has changed. -/
theorem exists_written {fs fs' : FileSystem} {path : Path} {bytes : ByteArray}
    (h : fs.writeFile path bytes = .ok fs') :
    ∃ place, Written fs fs' place bytes ∧ fs'.locate path = .ok place := by
  rw [writeFile, bind_eq_ok_iff] at h
  obtain ⟨⟨p, name⟩, hholder, h⟩ := h
  obtain ⟨hadm, hname, hdir, before, hsegments, hbefore⟩ := holder_eq_ok hholder
  dsimp only at h
  split at h
  · cases h
  · rename_i hdots
    obtain ⟨hdot, hup⟩ := not_or.mp hdots
    have hidle : Path.isIdle name = false := by simp [Path.isIdle, hname, hdot]
    suffices hput : p.lost = 0 ∧ name.utf8ByteSize ≤ maxName ∧
        fs.outline ⟨p.names ++ [name], 0⟩ ≠ .directory ∧
        fs' = { fs with root := fs.root.set (some (.file bytes)) (p.names ++ [name]) } by
      obtain ⟨hlost, hlength, hnot, rfl⟩ := hput
      have hwritten := written_set bytes hdir hlost hnot
      exact ⟨_, hwritten, hwritten.locate hadm hsegments hbefore hdir hlost hidle hup hlength⟩
    -- the directory has a file of that name, or nothing
    cases hfollow : fs.follow p name with
    | ok target =>
        rw [hfollow] at h
        rcases follow_eq_ok_iff.mp hfollow with ⟨_, hstay⟩ | ⟨_⟩ | ⟨_, _, _, hlength, hlost, _⟩
        · rw [hidle] at hstay
          cases hstay
        · exact absurd rfl hup
        · dsimp only at h
          split at h
          · rename_i old hnode
            cases h
            refine ⟨hlost, hlength, fun hdir' => ?_, rfl⟩
            obtain ⟨entries, hentries⟩ := Outline.of_eq_directory_iff.mp hdir'
            rw [hnode] at hentries
            cases hentries
          · cases h
    | error e =>
        rw [hfollow] at h
        cases e with
        | notFound =>
            dsimp only at h
            split at h
            · rename_i hlost
              cases h
              have hlength := length_le_of_follow_notFound hdir hfollow
              refine ⟨hlost, hlength, fun hdir' => ?_, rfl⟩
              have hleads : fs.Leads p name ⟨p.names ++ [name], 0⟩ :=
                .down hdir hidle hup hlength hlost (by rw [hdir']; rfl)
              rw [follow_eq_ok_iff.mpr hleads] at hfollow
              cases hfollow
            · cases h
        | _ => cases h

/-! ## 4. What is seen at the end of a path -/

/-- What is seen at the end of a path. -/
def seen (fs : FileSystem) (path : Path) : Outline := .of (fs.find? path)

theorem seen_of_locate {fs : FileSystem} {path : Path} {p : Position}
    (h : fs.locate path = .ok p) : fs.seen path = fs.outline p := by
  rw [seen, find?, h]
  rfl

theorem isPresent_eq (fs : FileSystem) (path : Path) :
    fs.isPresent path = (fs.seen path).isPresent := (Outline.isPresent_of _).symm

theorem bytes?_eq (fs : FileSystem) (path : Path) : fs.bytes? path = (fs.seen path).bytes? := by
  unfold bytes? seen
  rcases fs.find? path with _ | _ | _ <;> rfl

/-- Writing a file changes what is seen at the end of those paths only that lead to it. -/
theorem Written.seen_of_ne {fs fs' : FileSystem} {place : Position} {bytes : ByteArray}
    (h : Written fs fs' place bytes) {path : Path} (hne : fs'.locate path ≠ .ok place) :
    fs'.seen path = fs.seen path := by
  have horigin : fs'.origin path = fs.origin path := by rw [origin, origin, h.current]
  cases hnew : fs'.locate path with
  | ok p =>
      have hp : p ≠ place := by
        rintro rfl
        exact hne hnew
      obtain ⟨hadm, hfollow⟩ := locate_eq_ok_iff.mp hnew
      rw [horigin] at hfollow
      have hold := locate_eq_ok_iff.mpr ⟨hadm, h.followAll_of_ne _ hfollow hp⟩
      rw [seen_of_locate hnew, seen_of_locate hold, h.elsewhere p hp]
  | error e =>
      cases hold : fs.locate path with
      | error e => rw [seen, seen, find?, find?, hnew, hold]
      | ok p =>
          obtain ⟨hadm, hfollow⟩ := locate_eq_ok_iff.mp hold
          rw [← horigin] at hfollow
          rw [locate_eq_ok_iff.mpr ⟨hadm, h.followAll _ hfollow⟩] at hnew
          cases hnew

theorem fromUTF8?_toUTF8 (text : String) : String.fromUTF8? text.toUTF8 = some text :=
  dif_pos text.isValidUTF8

/-- **What is written is read.** -/
theorem readText?_writeFile {fs fs' : FileSystem} {path : Path} {text : String}
    (h : fs.writeFile path text.toUTF8 = .ok fs') : fs'.readText? path = some text := by
  obtain ⟨place, hwritten, hlocate⟩ := exists_written h
  have hseen : fs'.seen path = .file text.toUTF8 := by
    rw [seen_of_locate hlocate, hwritten.here]
  rw [readText?, bytes?_eq, hseen]
  exact fromUTF8?_toUTF8 text

/-- **Other files are left as they are**: after a file has been written, only paths that lead to it
    have changed. -/
theorem same_of_writeFile {fs fs' : FileSystem} {path other : Path} {bytes : ByteArray}
    (h : fs.writeFile path bytes = .ok fs') (hne : fs'.locate other ≠ fs'.locate path) :
    fs'.isPresent other = fs.isPresent other ∧ fs'.readText? other = fs.readText? other := by
  obtain ⟨place, hwritten, hlocate⟩ := exists_written h
  have hseen := hwritten.seen_of_ne (hlocate ▸ hne)
  rw [isPresent_eq, isPresent_eq, readText?, readText?, bytes?_eq, bytes?_eq, hseen]
  exact ⟨rfl, rfl⟩

end FileSystem

end Sema
