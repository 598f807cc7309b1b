import Mathlib.Data.Nat.Find
import Sema.Project.Search
import Sema.Proofs.Ascent
import Sema.Proofs.Storage

/-!
# The nearest project file

The search for the configuration of a project goes up from a path and stops at the first directory
that has a project file. Its answer is that file, read and parsed, or what is wrong with it
(`Config.Answers`); no file further up takes the place of a broken one. Only where no directory on
the way has a project file is none found.

The answer depends on the project files of the directories that the search comes to, and on nothing
else. This is so however files are kept, as long as one can ask whether there is something at a path
and what text is there. In particular a file system answers the same after some other file has been
written (`search_takes_nearest`).
-/

namespace Sema

namespace Config

/-! ## 1. The directories that the search comes to -/

/-- The project file of a directory. -/
def fileIn (directory : String) : Path := .ofString (Path.joined directory fileName)

/-- The search comes to a directory on its way up when those before have no project file. -/
def Reaches (files : FileView) (start directory : String) : Prop :=
  ∃ n, Path.Rises start n directory ∧
    ∀ m before, m < n → Path.Rises start m before → files.isPresent (fileIn before) = false

/-- The nearest directory with a project file. -/
def IsNearest (files : FileView) (start directory : String) : Prop :=
  Reaches files start directory ∧ files.isPresent (fileIn directory) = true

/-- What a search has to answer. -/
inductive Answers (files : FileView) (start : String) : Except ConfigError Found → Prop
  | found {directory text : String} {c : Config} : IsNearest files start directory →
      files.readText? (fileIn directory) = some text → ofToml? text = some c →
      Answers files start (.ok ⟨c, .ofString directory⟩)
  | malformed {directory text : String} : IsNearest files start directory →
      files.readText? (fileIn directory) = some text → ofToml? text = none →
      Answers files start (.error .malformed)
  | unreadable {directory : String} : IsNearest files start directory →
      files.readText? (fileIn directory) = none →
      Answers files start (.error (.unreadable (fileIn directory)))
  | notFound : (∀ n directory, Path.Rises start n directory →
        files.isPresent (fileIn directory) = false) →
      Answers files start (.error (.notFound (.ofString start)))

theorem child_fileName (directory : String) :
    (Path.ofString directory).child fileName = fileIn directory :=
  Path.child_ofString (by decide)

/-- Either some directory on the way up is the nearest with a project file, or none has one. -/
theorem exists_nearest_or (files : FileView) (start : String) :
    (∃ directory, IsNearest files start directory) ∨
      ∀ n directory, Path.Rises start n directory → files.isPresent (fileIn directory) = false := by
  by_cases h : ∃ n directory,
      Path.Rises start n directory ∧ files.isPresent (fileIn directory) = true
  · classical
    obtain ⟨directory, hrises, hpresent⟩ := Nat.find_spec h
    refine .inl ⟨directory, ⟨Nat.find h, hrises, fun m before hm hbefore => ?_⟩, hpresent⟩
    have hmin := Nat.find_min h hm
    rw [← Bool.not_eq_true]
    exact fun hp => hmin ⟨before, hbefore, hp⟩
  · refine .inr (fun n directory hrises => ?_)
    rw [← Bool.not_eq_true]
    exact fun hp => h ⟨n, directory, hrises, hp⟩

/-- The directories before the one that the search has come to, as the list of them has it. -/
theorem reaches_iff {files : FileView} {start directory : String} :
    Reaches files start directory ↔
      ∃ n, (Path.ofString start).upward[n]? = some (.ofString directory) ∧
        ∀ p ∈ (Path.ofString start).upward.take n, files.isPresent (p.child fileName) = false := by
  refine exists_congr fun n => and_congr ?_ ?_
  · rw [Path.getElem?_upward_eq_some]
    simp only [Path.ofString_inj, exists_eq_right']
  · constructor
    · intro h p hp
      obtain ⟨m, hm⟩ := List.mem_iff_getElem?.mp hp
      rw [List.getElem?_take, Option.ite_none_right_eq_some] at hm
      obtain ⟨before, hrises, rfl⟩ := Path.getElem?_upward_eq_some.mp hm.2
      rw [child_fileName]
      exact h m before hm.1 hrises
    · intro h m before hm hrises
      rw [← child_fileName]
      refine h _ (List.mem_iff_getElem?.mpr ⟨m, ?_⟩)
      rw [List.getElem?_take, if_pos hm]
      exact Path.getElem?_upward_eq_some.mpr ⟨before, hrises, rfl⟩

/-- The search comes to no directory beyond the nearest. -/
theorem Reaches.mem_take {files : FileView} {start directory : String} {nearest : Path} {n : Nat}
    (h : Reaches files start directory) (hn : (Path.ofString start).upward[n]? = some nearest)
    (hpresent : files.isPresent (nearest.child fileName) = true) :
    Path.ofString directory ∈ (Path.ofString start).upward.take (n + 1) := by
  obtain ⟨m, hm, hbefore⟩ := reaches_iff.mp h
  have hle : m ≤ n := by
    by_contra hlt
    have hmem : nearest ∈ (Path.ofString start).upward.take m := by
      refine List.mem_iff_getElem?.mpr ⟨n, ?_⟩
      rw [List.getElem?_take, if_pos (Nat.lt_of_not_le hlt), hn]
    rw [hbefore nearest hmem] at hpresent
    cases hpresent
  refine List.mem_iff_getElem?.mpr ⟨m, ?_⟩
  rw [List.getElem?_take, if_pos (Nat.lt_succ_of_le hle), hm]

/-- There is no project file on the way up, as the list of the directories has it. -/
theorem absent_iff {files : FileView} {start : String} :
    (∀ n directory, Path.Rises start n directory → files.isPresent (fileIn directory) = false) ↔
      ∀ p ∈ (Path.ofString start).upward, files.isPresent (p.child fileName) = false := by
  simp only [List.mem_iff_getElem?, Path.getElem?_upward_eq_some]
  constructor
  · rintro h p ⟨n, directory, hrises, rfl⟩
    rw [child_fileName]
    exact h n directory hrises
  · intro h n directory hrises
    rw [← child_fileName]
    exact h _ ⟨n, directory, hrises, rfl⟩

/-! ## 2. The search through a list of directories -/

theorem findIn_of_getElem? {files : FileView} {start directory : Path} :
    ∀ {n : Nat} {ds : List Path}, ds[n]? = some directory →
      files.isPresent (directory.child fileName) = true →
      (∀ d ∈ ds.take n, files.isPresent (d.child fileName) = false) →
      findIn files start ds = (load files (directory.child fileName)).map fun c => ⟨c, directory⟩
  | 0, d :: ds, hn, hpresent, _ => by
      cases hn
      rw [findIn, if_pos hpresent]
      cases load files (directory.child fileName) <;> rfl
  | n + 1, d :: ds, hn, hpresent, hbefore => by
      rw [List.take_succ_cons, List.forall_mem_cons] at hbefore
      rw [findIn, if_neg (by simp [hbefore.1])]
      exact findIn_of_getElem? hn hpresent hbefore.2

theorem findIn_of_absent {files : FileView} {start : Path} : ∀ {ds : List Path},
    (∀ d ∈ ds, files.isPresent (d.child fileName) = false) →
      findIn files start ds = .error (.notFound start)
  | [], _ => rfl
  | d :: ds, h => by
      rw [findIn, if_neg (by simp [h d List.mem_cons_self])]
      exact findIn_of_absent fun e he => h e (List.mem_cons_of_mem d he)

/-- **The search stops at the nearest directory with a project file**, whatever is in that file. -/
theorem IsNearest.findFrom {files : FileView} {start directory : String}
    (h : IsNearest files start directory) :
    findFrom files (.ofString start) =
      (load files (fileIn directory)).map fun c => ⟨c, .ofString directory⟩ := by
  obtain ⟨hreaches, hpresent⟩ := h
  obtain ⟨n, hn, hbefore⟩ := reaches_iff.mp hreaches
  rw [← child_fileName] at hpresent ⊢
  exact findIn_of_getElem? hn hpresent hbefore

theorem findFrom_of_absent {files : FileView} {start : String}
    (h : ∀ n directory, Path.Rises start n directory → files.isPresent (fileIn directory) = false) :
    findFrom files (.ofString start) = .error (.notFound (.ofString start)) :=
  findIn_of_absent (absent_iff.mp h)

theorem answers_findFrom (files : FileView) (start : String) :
    Answers files start (findFrom files (.ofString start)) := by
  rcases exists_nearest_or files start with ⟨directory, hnearest⟩ | habsent
  · rw [hnearest.findFrom, load]
    cases htext : files.readText? (fileIn directory) with
    | none => exact .unreadable hnearest htext
    | some text =>
        simp only [ofText]
        cases hconfig : ofToml? text with
        | none => exact .malformed hnearest htext hconfig
        | some c => exact .found hnearest htext hconfig
  · rw [findFrom_of_absent habsent]
    exact .notFound habsent

theorem Answers.eq_findFrom {files : FileView} {start : String} {r : Except ConfigError Found}
    (h : Answers files start r) : findFrom files (.ofString start) = r := by
  cases h with
  | found hnearest htext hconfig =>
      simp [hnearest.findFrom, load, htext, ofText, hconfig, Except.map]
  | malformed hnearest htext hconfig =>
      simp [hnearest.findFrom, load, htext, ofText, hconfig, Except.map]
  | unreadable hnearest htext => simp [hnearest.findFrom, load, htext, Except.map]
  | notFound habsent => exact findFrom_of_absent habsent

/-! ## 3. What the answer depends on -/

/-- Two file systems that agree on the project files up to the nearest yield the same. -/
theorem findFrom_congr {files files' : FileView} {start : String}
    (hpresent : ∀ directory, Reaches files start directory →
      files'.isPresent (fileIn directory) = files.isPresent (fileIn directory))
    (htext : ∀ directory, IsNearest files start directory →
      files'.readText? (fileIn directory) = files.readText? (fileIn directory)) :
    findFrom files' (.ofString start) = findFrom files (.ofString start) := by
  rcases exists_nearest_or files start with ⟨directory, hnearest⟩ | habsent
  · obtain ⟨⟨n, hrises, hbefore⟩, hd⟩ := hnearest
    have hnearest : IsNearest files start directory := ⟨⟨n, hrises, hbefore⟩, hd⟩
    have hnearest' : IsNearest files' start directory := by
      refine ⟨⟨n, hrises, fun m before hm hrises' => ?_⟩, ?_⟩
      · -- the search comes to each directory before the nearest
        have hreaches : Reaches files start before :=
          ⟨m, hrises', fun k e hk => hbefore k e (Nat.lt_trans hk hm)⟩
        rw [hpresent before hreaches]
        exact hbefore m before hm hrises'
      · rw [hpresent directory hnearest.1]
        exact hd
    rw [hnearest.findFrom, hnearest'.findFrom, load, load, htext directory hnearest]
  · rw [findFrom_of_absent habsent]
    refine findFrom_of_absent (fun n directory hrises => ?_)
    rw [hpresent directory ⟨n, hrises, fun m before _ => habsent m before⟩]
    exact habsent n directory hrises

end Config

/-- **The search takes the nearest project file and nothing else.** From any path the way up ends,
    at the empty path or at the root. The answer is that of the first directory on it that has a
    project file: its configuration, or the error of that very file; where there is none, the error
    names the path that the search started from. The answer stays the same wherever the same
    directories, up to that one, have a project file and that file has the same text. All this holds
    however files are kept. So a file that is written to a file system has no influence on the
    answer unless it is one of these. -/
theorem search_takes_nearest (files : FileView) (start : String) :
    (∃ n top, Path.Rises start n top ∧ (∀ parent, ¬ Path.IsParent parent top) ∧
      (top = "" ∨ (Path.ofString top).components = ["/"])) ∧
    (∀ r, Config.findFrom files (.ofString start) = r ↔ Config.Answers files start r) ∧
    (∀ files' : FileView,
      (∀ directory, Config.Reaches files start directory →
        files'.isPresent (Config.fileIn directory) = files.isPresent (Config.fileIn directory)) →
      (∀ directory, Config.IsNearest files start directory →
        files'.readText? (Config.fileIn directory) = files.readText? (Config.fileIn directory)) →
      Config.findFrom files' (.ofString start) = Config.findFrom files (.ofString start)) ∧
    (∀ (fs fs' : FileSystem) (path : Path) (bytes : ByteArray),
      fs.writeFile path bytes = .ok fs' →
      Config.findFrom fs' (.ofString start) ≠ Config.findFrom fs (.ofString start) →
      ∃ directory, Config.Reaches fs start directory ∧
        fs'.locate (Config.fileIn directory) = fs'.locate path) ∧
    (ConfigError.notFound (.ofString start)).message =
      "Could not find bjin.toml in " ++ start ++ " or any parent directory" ∧
    (∀ directory, (ConfigError.unreadable (Config.fileIn directory)).message =
      "Failed to read " ++ Path.joined directory "bjin.toml") := by
  refine ⟨Path.exists_rises_top start, fun r => ⟨?_, Config.Answers.eq_findFrom⟩,
    fun files' => Config.findFrom_congr, ?_, ?_, ?_⟩
  · rintro rfl
    exact Config.answers_findFrom files start
  · intro fs fs' path bytes hwrite hchanged
    by_contra hnone
    have hsame := fun directory h =>
      FileSystem.same_of_writeFile hwrite (fun hlocate => hnone ⟨directory, h, hlocate⟩)
    exact hchanged (Config.findFrom_congr (fun d h => (hsame d h).1) (fun d h => (hsame d h.1).2))
  · have hwords :
        "Could not find " ++ Config.fileName ++ " in " = "Could not find bjin.toml in " := by
      simp [Config.fileName]
    show "Could not find " ++ Config.fileName ++ " in " ++ (Path.ofString start).text ++ _ = _
    rw [Path.text_ofString, hwords]
  · intro directory
    show "Failed to read " ++ (Path.ofString _).text = _
    rw [Path.text_ofString, Config.fileName]

/-- A project inside another, the inner one with a broken file. The current directory is the outer
    one. -/
def nestedProjects : FileSystem :=
  ⟨.directory [("work", .directory
      [("bjin.toml", .file "package = ['outer', '1.0']".toUTF8),
        ("inner", .directory
          [("bjin.toml", .file "[package".toUTF8),
            ("src", .directory [("lib", .directory [])])])])],
    ⟨["work"], 0⟩⟩

/-- From below, the broken file is met first and reported, also when the outer file is written anew.
    With two dots at the end of a path, the outer file is found: the dots are a component like any
    other on the way up, but lead to the directory above in the file system. -/
theorem search_takes_nearest_nestedProjects :
    Config.findFrom nestedProjects (.ofString "inner/src/.//lib/") = .error .malformed ∧
    (∃ fs', nestedProjects.writeFile (.ofString "bjin.toml") "# nothing".toUTF8 = .ok fs' ∧
      Config.findFrom fs' (.ofString "inner/src/.//lib/") = .error .malformed) ∧
    Config.findFrom nestedProjects (.ofString "inner/src/../..") =
      .ok ⟨⟨"outer", "1.0", "2023", true⟩, .ofString "inner/src/../.."⟩ ∧
    Config.findFrom nestedProjects (.ofString "/none/./below") =
      .error (.notFound (.ofString "/none/./below")) := by
  obtain ⟨-, hbroken, -, hwritten, -⟩ := search_takes_nearest nestedProjects "inner/src/.//lib/"
  obtain ⟨-, hdots, -⟩ := search_takes_nearest nestedProjects "inner/src/../.."
  obtain ⟨-, hnone, -⟩ := search_takes_nearest nestedProjects "/none/./below"
  have hinner : Config.findFrom nestedProjects (.ofString "inner/src/.//lib/") =
      .error .malformed := by
    have hnearest : Config.IsNearest nestedProjects "inner/src/.//lib/" "inner" :=
      ⟨Config.reaches_iff.mpr ⟨2, rfl, by decide⟩, by decide⟩
    exact (hbroken _).mpr (.malformed hnearest (FileSystem.fromUTF8?_toUTF8 "[package") (by decide))
  refine ⟨hinner, ⟨_, rfl, ?_⟩, ?_, ?_⟩
  · rw [← hinner]
    by_contra hchanged
    obtain ⟨directory, hreaches, hlocate⟩ :=
      hwritten _ _ (.ofString "bjin.toml") "# nothing".toUTF8 rfl hchanged
    have hmem := hreaches.mem_take (n := 2) rfl (by decide)
    rw [← Config.child_fileName] at hlocate
    generalize Path.ofString directory = p at hmem hlocate
    revert p
    decide
  · have hnearest : Config.IsNearest nestedProjects "inner/src/../.." "inner/src/../.." :=
      ⟨Config.reaches_iff.mpr ⟨0, rfl, by decide⟩, by decide⟩
    exact (hdots _).mpr (.found hnearest
      (FileSystem.fromUTF8?_toUTF8 "package = ['outer', '1.0']") (by decide))
  · exact (hnone _).mpr (.notFound (Config.absent_iff.mpr (by decide)))

end Sema
