import Sema.Project.Search
import Sema.Proofs.Layout
import Sema.Proofs.Quotation
import Sema.Proofs.Storage

/-!
# Configurations that are saved and loaded

The text of a configuration is one of sound rows (`Config.toToml?_eq`,
`Config.isSound_of_mem_rows`), so reading it gives the configuration (`Config.ofToml?_rows`),
whatever characters its values hold. A file that was written is read as it was written; hence what
is saved is loaded.

What stands in the way is only the tally of the writer: a value in which 256 quotation marks or 256
apostrophes stand together is not written, and saving fails (`saved_configurations_load_back`). The
format has texts for such values, so there are files that can be loaded but not saved again
(`long_runs_are_not_saved`).
-/

namespace Sema.Toml

/-! ## 1. Values -/

/-- A written string begins with one of the two marks. -/
theorem exists_mark_of_write (t : Traits) (cs : List Char) :
    ∃ m r, t.write cs = m :: r ∧ (m = '\x22' ∨ m = '\x27') := by
  unfold Traits.write
  cases t.style with
  | basic => exact ⟨_, _, rfl, .inl rfl⟩
  | literal => exact ⟨_, _, rfl, .inr rfl⟩
  | basicLines => exact ⟨_, _, rfl, .inl rfl⟩
  | literalLines => exact ⟨_, _, rfl, .inr rfl⟩

theorem value_of_string {m : Char} (hm : m = '\x22' ∨ m = '\x27') {cs rest : List Char} {s : String}
    (h : string (m :: cs) = some (s, rest)) :
    value (m :: cs) = some (.scalar (.string s), rest) := by
  rcases hm with rfl | rfl
  all_goals
    show ((string _).map _).map _ = _
    rw [h]
    rfl

/-- A row for a string. -/
def Row.string (name s : String) : Row :=
  .entry name ((Traits.of s.toList).write s.toList) (.scalar (.string s))

theorem Row.isSound_string {name : String} (h : isBare name = true) (s : String) :
    (Row.string name s).IsSound := by
  obtain ⟨m, cs, hwrite, hm⟩ := exists_mark_of_write (Traits.of s.toList) s.toList
  refine ⟨h, ?_, fun r => ?_⟩
  · rw [hwrite]
    rcases hm with rfl | rfl <;> rfl
  · have hstring : Toml.string ((Traits.of s.toList).write s.toList ++ '\n' :: r) =
        some (String.ofList s.toList, '\n' :: r) := string_write (by nofun) (by nofun) s.toList
    rw [String.ofList_toList] at hstring
    rw [hwrite] at hstring ⊢
    exact value_of_string hm hstring

end Sema.Toml

namespace Sema.Config

/-! ## 2. The text of a configuration -/

/-- A configuration all of whose values have a written form. -/
def IsWritable (c : Config) : Prop :=
  Toml.IsWritable c.name ∧ Toml.IsWritable c.version ∧ Toml.IsWritable c.edition

instance (c : Config) : Decidable c.IsWritable := inferInstanceAs (Decidable (_ ∧ _))

/-- The rows of the file. -/
def rows (c : Config) : List Toml.Row :=
  [.header "package", .string "name" c.name, .string "version" c.version,
    .string "edition" c.edition, .blank, .header "analysis",
    .entry "prelude" (boolText c.prelude).toList (.scalar (.boolean c.prelude))]

theorem isSound_prelude (b : Bool) :
    (Toml.Row.entry "prelude" (boolText b).toList (.scalar (.boolean b))).IsSound := by
  refine ⟨rfl, ?_, ?_⟩
  · cases b <;> rfl
  · cases b <;> exact fun _ => rfl

theorem isSound_of_mem_rows (c : Config) : ∀ row ∈ c.rows, row.IsSound := by
  simp only [rows, List.forall_mem_cons]
  refine ⟨?_, ?_, ?_, ?_, ?_, ?_, ?_, ?_⟩
  · exact rfl
  · exact Toml.Row.isSound_string rfl _
  · exact Toml.Row.isSound_string rfl _
  · exact Toml.Row.isSound_string rfl _
  · exact trivial
  · exact rfl
  · exact isSound_prelude _
  · exact nofun

/-- The text of the file, if there is one, is that of its rows. -/
theorem toToml?_eq (c : Config) :
    c.toToml? =
      if c.IsWritable then some (String.ofList (c.rows.flatMap Toml.Row.text)) else none := by
  unfold toToml?
  rw [Toml.quote?_eq, Toml.quote?_eq, Toml.quote?_eq]
  -- the first value without a written form leaves the whole without a text
  by_cases hname : Toml.IsWritable c.name
  case neg =>
    rw [if_neg hname, if_neg (fun h : c.IsWritable => hname h.1)]
    rfl
  by_cases hversion : Toml.IsWritable c.version
  case neg =>
    rw [if_pos hname, if_neg hversion, if_neg (fun h : c.IsWritable => hversion h.2.1)]
    rfl
  by_cases hedition : Toml.IsWritable c.edition
  case neg =>
    rw [if_pos hname, if_pos hversion, if_neg hedition,
      if_neg (fun h : c.IsWritable => hedition h.2.2)]
    rfl
  have hwritable : c.IsWritable := ⟨hname, hversion, hedition⟩
  rw [if_pos hname, if_pos hversion, if_pos hedition, if_pos hwritable]
  refine congrArg some (String.toList_inj.mp ?_)
  simp [rows, Toml.Row.string, Toml.Row.text]

/-- The document that the rows make up describes the configuration. -/
theorem ofEntries?_rows (c : Config) :
    (do ofEntries? (← Toml.assemble (c.rows.flatMap Toml.Row.lines))) = some c := rfl

/-- **Every configuration has a text from which it is read**, also one that is not written. -/
theorem ofToml?_rows (c : Config) :
    ofToml? (String.ofList (c.rows.flatMap Toml.Row.text)) = some c := by
  rw [ofToml?, Toml.parse_rows c.isSound_of_mem_rows]
  exact c.ofEntries?_rows

theorem toToml?_of_isWritable {c : Config} (h : c.IsWritable) :
    c.toToml? = some (String.ofList (c.rows.flatMap Toml.Row.text)) := by
  rw [toToml?_eq, if_pos h]

theorem toToml?_of_not_isWritable {c : Config} (h : ¬ c.IsWritable) : c.toToml? = none := by
  rw [toToml?_eq, if_neg h]

/-- **What is written is read as the configuration.** -/
theorem ofToml?_of_toToml? {c : Config} {text : String} (h : c.toToml? = some text) :
    ofToml? text = some c := by
  rw [toToml?_eq] at h
  obtain ⟨-, h⟩ := Option.ite_none_right_eq_some.mp h
  rw [← Option.some.inj h]
  exact c.ofToml?_rows

/-! ## 3. Files -/

theorem save_eq_ok_iff {c : Config} {text : String} (h : c.toToml? = some text)
    {fs fs' : FileSystem} {path : Path} :
    c.save fs path = .ok fs' ↔ fs.writeFile path text.toUTF8 = .ok fs' := by
  rw [save, h]
  dsimp only
  cases fs.writeFile path text.toUTF8 with
  | ok fs' => simp only [Except.ok.injEq]
  | error e => exact ⟨nofun, nofun⟩

theorem save_of_not_isWritable {c : Config} (h : ¬ c.IsWritable) (fs : FileSystem) (path : Path) :
    c.save fs path = .error .tallyOverflow := by
  rw [save, toToml?_of_not_isWritable h]

/-- **What is saved is loaded from the same place.** -/
theorem load_of_save {c : Config} {fs fs' : FileSystem} {path : Path}
    (h : c.save fs path = .ok fs') : load fs' path = .ok c := by
  cases htext : c.toToml? with
  | none =>
      -- without a text nothing has been saved
      rw [save, htext] at h
      cases h
  | some text =>
      have hwrite := (save_eq_ok_iff htext).mp h
      rw [load, FileSystem.readText?_view, FileSystem.readText?_writeFile hwrite]
      dsimp only
      rw [ofText, ofToml?_of_toToml? htext]

end Sema.Config

namespace Sema

/-- **Saved configurations load back.** A configuration in whose values no 256 quotation marks and
    no 256 apostrophes stand together has a text; that is what is saved, and the configuration is
    read from it. Any other is refused, wherever it is to be saved. After a configuration has been
    saved, it is loaded from there. So reading a text, writing the configuration and reading that
    gives what was read at first, exactly when the configuration is one that can be written. -/
theorem saved_configurations_load_back (c : Config) :
    (c.IsWritable → ∃ text, c.toToml? = some text ∧ Config.ofToml? text = some c ∧
      ∀ fs fs' path, c.save fs path = .ok fs' ↔ fs.writeFile path text.toUTF8 = .ok fs') ∧
    (¬ c.IsWritable → c.toToml? = none ∧ ∀ fs path, c.save fs path = .error .tallyOverflow) ∧
    (∀ fs fs' path, c.save fs path = .ok fs' → Config.load fs' path = .ok c) ∧
    ∀ given, Config.ofToml? given = some c →
      (c.toToml?.bind Config.ofToml? = Config.ofToml? given ↔ c.IsWritable) := by
  refine ⟨fun h => ?_, fun h => ?_, fun fs fs' path => Config.load_of_save, fun given hgiven => ?_⟩
  · have htext := Config.toToml?_of_isWritable h
    exact ⟨_, htext, c.ofToml?_rows, fun fs fs' path => Config.save_eq_ok_iff htext⟩
  · exact ⟨Config.toToml?_of_not_isWritable h, Config.save_of_not_isWritable h⟩
  · rw [hgiven]
    constructor
    · intro h
      by_contra hnot
      rw [Config.toToml?_of_not_isWritable hnot] at h
      cases h
    · intro h
      rw [Config.toToml?_of_isWritable h, Option.bind_some, Config.ofToml?_rows]

/-- A configuration with marks, a backslash, a line feed and a control character in its values. -/
def oddConfig : Config :=
  ⟨"'\x22\x22\x22\\\n\x00é", "it's \x22odd\x22", "", false⟩

theorem isWritable_oddConfig : oddConfig.IsWritable := by
  refine ⟨?_, ?_, ?_⟩ <;> exact Toml.isWritable_of_length_lt (by decide)

/-- 256 quotation marks. -/
def longRun : String := String.ofList (List.replicate 256 '\x22')

theorem not_isWritable_longRun : ¬ (Config.new longRun).IsWritable := by
  have hmarks : longRun.toList = List.replicate 256 '\x22' := String.toList_ofList
  intro h
  exact h.1.1 ⟨[], [], (List.append_nil _).trans hmarks.symm⟩

/-- The odd configuration is saved to an empty file system and loaded from there; the long run is
    refused everywhere; and a text with dotted keys gives the same once it is written anew. -/
theorem saved_configurations_load_back_oddConfig :
    (∃ text, oddConfig.toToml? = some text ∧ Config.ofToml? text = some oddConfig) ∧
    (∃ fs, oddConfig.save ⟨.directory [], ⟨[], 0⟩⟩ (.ofString "/bjin.toml") = .ok fs ∧
      Config.load fs (.ofString "/bjin.toml") = .ok oddConfig) ∧
    (∀ fs path, (Config.new longRun).save fs path = .error .tallyOverflow) ∧
    ((Config.new "a").toToml?.bind Config.ofToml? =
      Config.ofToml? "package.name = 'a'\npackage.version = '0.1.0'") := by
  obtain ⟨text, htext, hread, hsave⟩ :=
    (saved_configurations_load_back oddConfig).1 isWritable_oddConfig
  have hwrite := (hsave ⟨.directory [], ⟨[], 0⟩⟩ _ (.ofString "/bjin.toml")).mpr rfl
  refine ⟨⟨text, htext, hread⟩, ⟨_, hwrite, ?_⟩, ?_, ?_⟩
  · exact (saved_configurations_load_back oddConfig).2.2.1 _ _ _ hwrite
  · exact ((saved_configurations_load_back (Config.new longRun)).2.1 not_isWritable_longRun).2
  · refine ((saved_configurations_load_back (Config.new "a")).2.2.2 _ rfl).mpr ?_
    refine ⟨?_, ?_, ?_⟩ <;> exact Toml.isWritable_of_length_lt (by decide)

/-- A name of 256 quotation marks can be loaded but not saved. -/
theorem long_runs_are_not_saved :
    (∃ given, Config.ofToml? given = some (Config.new longRun)) ∧
      (Config.new longRun).toToml? = none ∧
      ∀ fs path, (Config.new longRun).save fs path = .error .tallyOverflow :=
  ⟨⟨_, Config.ofToml?_rows _⟩, Config.toToml?_of_not_isWritable not_isWritable_longRun,
    Config.save_of_not_isWritable not_isWritable_longRun⟩

end Sema
