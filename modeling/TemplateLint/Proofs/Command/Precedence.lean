import Mathlib
import TemplateLint.Command.Run
import TemplateLint.Proofs.Command.Flag
import TemplateLint.Proofs.Settings.Environment

/-!
# Which setting counts

A setting can be given by a flag, by a variable of the environment and by an entry of the file of
settings, and they count in this order. All three end up in one tree, where the flag has a short key
and the other two a path. A truth value or a number is taken from the first key that is there, so
the order is kept as long as nothing but the command line uses the short key. A text or a list is
taken from the first key where it is not empty, so an empty one given by a flag does not count. And
a variable is always a text, so it never counts where a list is asked for.
-/
namespace TemplateLint.Settings
open Value

/-! ## Layers -/

/-- A setting: the name of its flag and the two keys of its path. -/
structure Key where
  flag : String
  group : String
  name : String
  deriving DecidableEq

namespace Key

def moduleName : Key := ⟨"module-name", "module", "name"⟩

def indent : Key := ⟨"indent", "lint", "indent"⟩

def disable : Key := ⟨"disable", "lint", "disable"⟩

def strict : Key := ⟨"strict", "lint", "strict"⟩

def format : Key := ⟨"output-format", "lint", "output-format"⟩

def printLines : Key := ⟨"print-lines", "lint", "print-lines"⟩

/-- The settings of a lint run that have a flag and a path. -/
def all : List Key := [moduleName, indent, disable, strict, format, printLines]

def flagName (key : Key) : Bytes := Bytes.ofString key.flag

def path (key : Key) : Bytes := Bytes.ofString key.group ++ Byte.dot :: Bytes.ofString key.name

/-- The value of a setting below the command line: that of its variable, or else that of the file. -/
def below (key : Key) (env : Environment) (file : Tree) : Option Value :=
  ((env.valueAt? key.path).map .text).or (file.find key.path)

/-- The value of a setting that counts: that of its flag, or else the one below. -/
def value (key : Key) (given : Tree) (env : Environment) (file : Tree) : Option Value :=
  (given.lookup key.flagName).or (key.below env file)

/-- A flag that is given with something in it. -/
def IsSettled (key : Key) (given : Tree) : Prop :=
  ∃ v, given.lookup key.flagName = some v ∧ v.toText ≠ [] ∧ ∀ items, v = .list items → items ≠ []

/-- Nothing in the environment or the file is in the way of a setting: no path of a variable leads
on from another or from the path of the setting, the short key is used by neither of them, and the
file does not spell out as one key a path that has a variable. -/
structure IsClear (key : Key) (env : Environment) (file : Tree) : Prop where
  prefixFree : env.IsPrefixFree
  apart : ∀ p ∈ env.paths, Apart p key.path
  unnamed : ∀ p ∈ env.paths, ¬[key.flagName] <+: wayOf p
  noEntry : key.flagName ∉ file.keys
  nested : key.path ∈ env.paths → key.path ∉ file.keys

/-- A flag that is given empty over a value that is not. -/
def FallsThrough {α : Type} (key : Key) (read : Value → List α) (given : Tree)
    (env : Environment) (file : Tree) : Prop :=
  ∃ v w, given.lookup key.flagName = some v ∧ read v = [] ∧ key.below env file = some w ∧
    read w ≠ []

/-- A setting whose keys hold no dots, and to whose path no flag leads. -/
structure IsPlain (key : Key) : Prop where
  flag : Byte.dot ∉ key.flagName
  group : Byte.dot ∉ Bytes.ofString key.group
  name : Byte.dot ∉ Bytes.ofString key.name
  foreign : ∀ f ∈ Command.lint.flags, Tree.behindKey (Bytes.ofString f.name) key.path = none

theorem isPlain_of_mem {key : Key} (h : key ∈ all) : key.IsPlain := by
  have hall : ∀ key ∈ all, Byte.dot ∉ key.flagName ∧ Byte.dot ∉ Bytes.ofString key.group ∧
      Byte.dot ∉ Bytes.ofString key.name ∧
      ∀ f ∈ Command.lint.flags, Tree.behindKey (Bytes.ofString f.name) key.path = none := by
    decide +kernel
  obtain ⟨hflag, hgroup, hname, hforeign⟩ := hall key h
  exact ⟨hflag, hgroup, hname, hforeign⟩

/-! ## The tree of all layers -/

section
variable {key : Key} {given : Command.Given} {env : Environment} {file : Tree}

/-- A flag that is given is found under its name. -/
theorem find_flagName (hkey : key.IsPlain) (hgiven : given.IsTyped Command.lint.flags)
    (lower : Tree) :
    (Tree.overlay given.values lower).find key.flagName =
      (given.values.lookup key.flagName).or (lower.lookup key.flagName) := by
  rw [Tree.find_of_not_mem hkey.flag, Tree.lookup_overlay hgiven.nodup]
  cases hlookup : given.values.lookup key.flagName with
  | none => rfl
  | some v =>
    obtain ⟨flag, -, -, htakes⟩ := hgiven.kinds _ _ hlookup
    rw [Option.map_some, Tree.overlayValue_of_ne htakes.ne_map]

/-- No flag is found at a path. -/
theorem find_path (hkey : key.IsPlain) (hgiven : given.IsTyped Command.lint.flags)
    (lower : Tree) : (Tree.overlay given.values lower).find key.path = lower.find key.path := by
  refine Tree.find_overlay_of_none (fun name hname => ?_) lower
  obtain ⟨v, hv⟩ := Option.ne_none_iff_exists'.1 (mt Tree.lookup_eq_none_iff.1 (not_not.2 hname))
  obtain ⟨flag, hflag, rfl, -⟩ := hgiven.kinds _ _ hv
  exact hkey.foreign flag hflag

/-- Below the command line the short key is not used. -/
theorem IsClear.lookup_flagName (h : key.IsClear env file) (hkey : key.IsPlain) :
    (Tree.overlay env.settings file).lookup key.flagName = none := by
  rw [Tree.lookup_overlay (env.isTidy_settings []).keys.1,
    Environment.lookup_settings_eq_none h.prefixFree hkey.flag h.unnamed,
    Tree.lookup_eq_none_iff.2 h.noEntry]
  rfl

/-- Below the command line a variable wins over the file. -/
theorem IsClear.find_path (h : key.IsClear env file) (hkey : key.IsPlain) :
    (Tree.overlay env.settings file).find key.path = key.below env file :=
  Environment.find_overlay_settings h.prefixFree hkey.group hkey.name h.apart
    fun hmem => Tree.lookup_eq_none_iff.2 (h.nested hmem)

/-- **What is asked for is taken from the flag, or else from below the command line.** -/
theorem firstOf_overlay {α : Type} (hkey : key.IsPlain)
    (hgiven : given.IsTyped Command.lint.flags) {long : String}
    (hlong : Bytes.ofString long = key.path) (read : Value → Option α) (default : α)
    (hclear : (given.values.lookup key.flagName).bind read = none → key.IsClear env file) :
    (Tree.overlay given.values (Tree.overlay env.settings file)).firstOf [key.flag, long] read
        default =
      (((given.values.lookup key.flagName).bind read).or
        ((key.below env file).bind read)).getD default := by
  have hfirst (tree : Tree) : tree.firstOf [key.flag, long] read default =
      (((tree.find key.flagName).bind read).or ((tree.find key.path).bind read)).getD default := by
    rw [Tree.firstOf, ← hlong, flagName]
    simp only [List.findSome?_cons, List.findSome?_nil]
    cases (tree.find (Bytes.ofString key.flag)).bind read <;>
      cases (tree.find (Bytes.ofString long)).bind read <;> rfl
  rw [hfirst, find_flagName hkey hgiven, find_path hkey hgiven]
  cases hread : (given.values.lookup key.flagName).bind read with
  | some x =>
    obtain ⟨v, hv, hx⟩ := Option.bind_eq_some_iff.1 hread
    rw [hv, Option.some_or, Option.bind_some, hx, Option.some_or, Option.some_or]
  | none =>
    have h := hclear hread
    rw [h.lookup_flagName hkey, h.find_path hkey, Option.or_none, hread]

/-! ## The kinds of settings -/

theorem not_isSettled_of_bind {α : Type} {read : Value → Option α}
    (hread : ∀ v, given.values.lookup key.flagName = some v → v.toText ≠ [] →
      (∀ items, v = .list items → items ≠ []) → read v ≠ none)
    (h : (given.values.lookup key.flagName).bind read = none) : ¬key.IsSettled given.values := by
  rintro ⟨v, hv, htext, hitems⟩
  rw [hv, Option.bind_some] at h
  exact hread v hv htext hitems h

/-- A number or a truth value is the one that counts. -/
theorem firstOf_present {α : Type} (hkey : key.IsPlain)
    (hgiven : given.IsTyped Command.lint.flags) {long : String}
    (hlong : Bytes.ofString long = key.path) (read : Value → α) (default : α)
    (hclear : ¬key.IsSettled given.values → key.IsClear env file) :
    (Tree.overlay given.values (Tree.overlay env.settings file)).firstOf [key.flag, long]
        (fun v => some (read v)) default =
      ((key.value given.values env file).map read).getD default := by
  rw [firstOf_overlay hkey hgiven hlong _ default
    fun h => hclear (not_isSettled_of_bind (fun _ _ _ _ => by simp) h), value]
  cases given.values.lookup key.flagName <;> cases key.below env file <;> rfl

/-- What is empty does not count. -/
theorem getD_or_bind_eq_iff {α : Type} (read : Value → List α) (given below : Option Value) :
    ((given.bind fun v => if (read v).isEmpty then none else some (read v)).or
        (below.bind fun v => if (read v).isEmpty then none else some (read v))).getD [] =
      ((given.or below).map read).getD [] ↔
    ¬∃ v w, given = some v ∧ read v = [] ∧ below = some w ∧ read w ≠ [] := by
  cases given with
  | none =>
    cases below with
    | none => simp
    | some w => by_cases hw : read w = [] <;> simp [hw]
  | some v =>
    by_cases hv : read v = []
    · cases below with
      | none => simp [hv]
      | some w => by_cases hw : read w = [] <;> simp [hv, hw]
    · cases below with
      | none => simp [hv]
      | some w => simp [hv]

/-- A text is the one that counts unless an empty flag lets another through. -/
theorem text_eq_iff (hkey : key.IsPlain) (hgiven : given.IsTyped Command.lint.flags)
    {long : String} (hlong : Bytes.ofString long = key.path)
    (hclear : ¬key.IsSettled given.values → key.IsClear env file) :
    (Tree.overlay given.values (Tree.overlay env.settings file)).text [key.flag, long] [] =
        ((key.value given.values env file).map toText).getD [] ↔
      ¬key.FallsThrough toText given.values env file := by
  rw [Tree.text, firstOf_overlay hkey hgiven hlong]
  · exact getD_or_bind_eq_iff toText _ _
  · exact fun h => hclear (not_isSettled_of_bind (fun v _ htext _ => by simpa using htext) h)

/-- A value as a list of texts, when there is a reading of texts as lists. -/
def listed (reading : Bytes → List Bytes) : Value → List Bytes
  | .text s => reading s
  | v => v.toTexts

/-- A flag that takes a list holds one. -/
theorem exists_list_of_lookup (hgiven : given.IsTyped Command.lint.flags)
    (hkind : ∀ f ∈ Command.lint.flags, Bytes.ofString f.name = key.flagName → f.kind = .texts)
    {v : Value} (hv : given.values.lookup key.flagName = some v) : ∃ items, v = .list items := by
  obtain ⟨flag, hflag, hname, htakes⟩ := hgiven.kinds _ _ hv
  rw [hkind flag hflag hname.symm] at htakes
  obtain ⟨items, rfl⟩ := htakes
  exact ⟨_, rfl⟩

/-- A list is the one that counts unless an empty flag lets another through, or it is written as a
text. -/
theorem texts_eq_iff (hkey : key.IsPlain) (hgiven : given.IsTyped Command.lint.flags)
    (hkind : ∀ f ∈ Command.lint.flags, Bytes.ofString f.name = key.flagName → f.kind = .texts)
    {long : String} (hlong : Bytes.ofString long = key.path)
    (hclear : ¬key.IsSettled given.values → key.IsClear env file)
    (reading : Bytes → List Bytes) :
    (Tree.overlay given.values (Tree.overlay env.settings file)).texts [key.flag, long] [] =
        ((key.value given.values env file).map (listed reading)).getD [] ↔
      ¬key.FallsThrough toTexts given.values env file ∧
        ∀ s, key.value given.values env file = some (.text s) → reading s = [] := by
  rw [Tree.texts, firstOf_overlay hkey hgiven hlong]
  · have hiff := getD_or_bind_eq_iff toTexts (given.values.lookup key.flagName)
      (key.below env file)
    rw [← FallsThrough] at hiff
    rw [value]
    cases hlookup : given.values.lookup key.flagName with
    | some v =>
      obtain ⟨items, rfl⟩ := exists_list_of_lookup hgiven hkind hlookup
      rw [hlookup] at hiff
      simpa [listed] using hiff
    | none =>
      have hfalls : ¬key.FallsThrough toTexts given.values env file := by
        simp [FallsThrough, hlookup]
      have heffective := hiff.2 hfalls
      rw [hlookup] at heffective
      rw [heffective, and_iff_right hfalls, Option.none_or]
      cases key.below env file with
      | none => simp
      | some w =>
        cases w with
        | text s => simp [listed, toTexts, eq_comm]
        | null | flag | integer | number | moment | list | map => simp [listed]
  · refine fun h => hclear (not_isSettled_of_bind (fun v hv _ hitems => ?_) h)
    obtain ⟨items, rfl⟩ := exists_list_of_lookup hgiven hkind hv
    simpa [toTexts] using hitems items rfl

end
end Key

/-! ## The settings of a lint run -/

/-- Options and a configuration that go by the settings that count. For texts and lists it is said
exactly when they do. -/
structure GoBy (reading : Bytes → List Bytes) (given : Tree) (env : Environment) (file : Tree)
    (config : Stylesheet.Config) (options : Options) : Prop where
  indent : config.indent = ((Key.indent.value given env file).map toInteger).getD 2
  strict : options.strict = ((Key.strict.value given env file).map toFlag).getD false
  printLines : options.printLines = ((Key.printLines.value given env file).map toFlag).getD true
  moduleName : options.moduleName = ((Key.moduleName.value given env file).map toText).getD [] ↔
    ¬Key.moduleName.FallsThrough toText given env file
  format : options.format = ((Key.format.value given env file).map toText).getD [] ↔
    ¬Key.format.FallsThrough toText given env file
  disabled : config.disabled =
      ((Key.disable.value given env file).map (Key.listed reading)).getD [] ↔
    ¬Key.disable.FallsThrough toTexts given env file ∧
      ∀ s, Key.disable.value given env file = some (.text s) → reading s = []

/-- The file of settings that a command line names. -/
def fileOf (given : Command.Given) : Bytes :=
  if (given.text "config" defaultFile).isEmpty then defaultFile
  else given.text "config" defaultFile

/-- A plan is made from all layers. -/
theorem exists_of_plan {s : Command.Surroundings} {given : Command.Given} {p : Command.Plan}
    (h : Command.plan s given = .ok p) :
    ∃ file, loadTree s.workspace (fileOf given) = .ok file ∧
      p.loaded.tree = Tree.overlay given.values (Tree.overlay p.loaded.env.settings file) ∧
      p.options = Options.ofTree p.loaded.tree given.arguments := by
  obtain ⟨loaded, hload, hplan⟩ := Command.exists_of_bind h
  obtain ⟨env, henv, hload⟩ := Command.exists_of_bind hload
  obtain ⟨file, hfile, hload⟩ := Command.exists_of_bind hload
  cases hload
  cases hplan
  exact ⟨file, hfile, rfl, rfl⟩

/-- **Flags come before variables, variables before the file, and the file before defaults.** The
settings of a lint run go by this order when nothing is in the way of those that the command line
leaves open. -/
theorem settings_go_by_precedence {s : Command.Surroundings} {arguments : List Bytes}
    {given : Command.Given} {p : Command.Plan} {config : Stylesheet.Config} {file : Tree}
    (hread : Command.read arguments = .ok (.lint, given)) (hplan : Command.plan s given = .ok p)
    (hconfig : linterConfig p.loaded.tree = .ok config)
    (hfile : loadTree s.workspace (fileOf given) = .ok file)
    (hclear : ∀ key ∈ Key.all, ¬key.IsSettled given.values → key.IsClear p.loaded.env file)
    (reading : Bytes → List Bytes) :
    GoBy reading given.values p.loaded.env file config p.options := by
  obtain ⟨⟨command, rest⟩, -, hflags⟩ := Command.exists_of_mapError_bind hread
  obtain ⟨g, hflags, hlint⟩ := Command.exists_of_mapError_bind hflags
  cases hlint
  have hgiven := Command.isTyped_of_readFlags hflags
  obtain ⟨file', hfile', htree, hoptions⟩ := exists_of_plan hplan
  obtain rfl : file' = file := Except.ok.inj (hfile'.symm.trans hfile)
  obtain ⟨severities, -, hconfig⟩ := Command.exists_of_bind hconfig
  cases hconfig
  have hplain : ∀ key ∈ Key.all, key.IsPlain := fun key => Key.isPlain_of_mem
  rw [hoptions, htree]
  exact {
    indent := Key.firstOf_present (hplain .indent (by decide)) hgiven rfl toInteger 2
      (hclear .indent (by decide))
    strict := Key.firstOf_present (hplain .strict (by decide)) hgiven rfl toFlag false
      (hclear .strict (by decide))
    printLines := Key.firstOf_present (hplain .printLines (by decide)) hgiven rfl toFlag true
      (hclear .printLines (by decide))
    moduleName := Key.text_eq_iff (hplain .moduleName (by decide)) hgiven rfl
      (hclear .moduleName (by decide))
    format := Key.text_eq_iff (hplain .format (by decide)) hgiven rfl
      (hclear .format (by decide))
    disabled := Key.texts_eq_iff (hplain .disable (by decide)) hgiven (by decide +kernel) rfl
      (hclear .disable (by decide)) reading }

/-- A file, variables and flags that say different things. -/
def layeredSurroundings : Command.Surroundings where
  workspace := (Workspace.empty [Byte.slash]).addFile defaultFile
    (Bytes.ofString "module:\n  name: m\nlint:\n  indent: 8\n  strict: false\n" ++
      Bytes.ofString "  output-format: json\n  disable: [block-no-empty]\n")
  env := [(Bytes.ofString "STYLEDLINT_LINT_INDENT", Bytes.ofString "5"),
    (Bytes.ofString "STYLEDLINT_LINT_STRICT", Bytes.ofString "true")]
  terminal := false
  timestamp := []

def layeredArguments : List Bytes := ["lint", "--indent", "3", "--module-name=n"].map Bytes.ofString

/-- Each layer gives what those before it leave open. -/
theorem layeredSurroundings_go_by_precedence :
    ∃ given p config file, Command.read layeredArguments = .ok (.lint, given) ∧
      Command.plan layeredSurroundings given = .ok p ∧
      linterConfig p.loaded.tree = .ok config ∧
      loadTree layeredSurroundings.workspace (fileOf given) = .ok file ∧
      given.values.keys = ["indent", "module-name"].map Bytes.ofString ∧
      p.loaded.env = layeredSurroundings.env ∧
      file.keys = ["module", "lint"].map Bytes.ofString ∧
      config.indent = 3 ∧ config.disabled = [Bytes.ofString "block-no-empty"] ∧
      p.options.moduleName = Bytes.ofString "n" ∧ p.options.strict = true ∧
      p.options.format = Bytes.ofString "json" ∧ p.options.printLines = true ∧
      GoBy (fun s => [s]) given.values p.loaded.env file config p.options := by
  have hrun : ((Command.read layeredArguments).mapError (fun _ => ()) >>= fun r =>
      (Command.plan layeredSurroundings r.2).mapError (fun _ => ()) >>= fun p =>
      (linterConfig p.loaded.tree).mapError (fun _ => ()) >>= fun config =>
      (loadTree layeredSurroundings.workspace (fileOf r.2)).mapError (fun _ => ()) >>= fun file =>
      .ok (r.1, decide (r.2.values.keys = ["indent", "module-name"].map Bytes.ofString ∧
        p.loaded.env = layeredSurroundings.env ∧
        file.keys = ["module", "lint"].map Bytes.ofString ∧
        config.indent = 3 ∧ config.disabled = [Bytes.ofString "block-no-empty"] ∧
        p.options.moduleName = Bytes.ofString "n" ∧ p.options.strict = true ∧
        p.options.format = Bytes.ofString "json" ∧ p.options.printLines = true))) =
      .ok (.lint, true) := by
    decide +kernel
  obtain ⟨⟨command, given⟩, hread, hrun⟩ := Command.exists_of_mapError_bind hrun
  obtain ⟨p, hplan, hrun⟩ := Command.exists_of_mapError_bind hrun
  obtain ⟨config, hconfig, hrun⟩ := Command.exists_of_mapError_bind hrun
  obtain ⟨file, hfile, hrun⟩ := Command.exists_of_mapError_bind hrun
  simp only [Except.ok.injEq, Prod.mk.injEq, decide_eq_true_eq] at hrun
  obtain ⟨rfl, hflags, henv, hkeys, hindent, hdisabled, hmodule, hstrict, hformat, hlines⟩ := hrun
  refine ⟨given, p, config, file, hread, hplan, hconfig, hfile, hflags, henv, hkeys, hindent,
    hdisabled, hmodule, hstrict, hformat, hlines,
    settings_go_by_precedence hread hplan hconfig hfile ?_ _⟩
  rintro key hkey -
  rw [henv]
  have hfree : layeredSurroundings.env.IsPrefixFree := by decide +kernel
  have hclear : ∀ key ∈ Key.all, (∀ p ∈ layeredSurroundings.env.paths, Apart p key.path) ∧
      (∀ p ∈ layeredSurroundings.env.paths, ¬[key.flagName] <+: wayOf p) ∧
      key.flagName ∉ ["module", "lint"].map Bytes.ofString ∧
      key.path ∉ ["module", "lint"].map Bytes.ofString := by
    decide +kernel
  rw [← hkeys] at hclear
  obtain ⟨hapart, hunnamed, hentry, hpath⟩ := hclear key hkey
  exact ⟨hfree, hapart, hunnamed, hentry, fun _ => hpath⟩

/-- A variable that names a rule to disable, and nothing else. -/
def disablingSurroundings : Command.Surroundings where
  workspace := Workspace.empty [Byte.slash]
  env := [(Bytes.ofString "STYLEDLINT_LINT_DISABLE", Bytes.ofString "block-no-empty")]
  terminal := false
  timestamp := []

/-- The variable does not count, though no flag is given: no rule is disabled. -/
theorem disabling_variable_ignored :
    ∃ given p config file, Command.read [Bytes.ofString "lint"] = .ok (.lint, given) ∧
      Command.plan disablingSurroundings given = .ok p ∧
      linterConfig p.loaded.tree = .ok config ∧
      loadTree disablingSurroundings.workspace (fileOf given) = .ok file ∧
      given.values.keys = [] ∧
      p.loaded.env.valueAt? Key.disable.path = some (Bytes.ofString "block-no-empty") ∧
      config.disabled = [] := by
  have hrun : ((Command.read [Bytes.ofString "lint"]).mapError (fun _ => ()) >>= fun r =>
      (Command.plan disablingSurroundings r.2).mapError (fun _ => ()) >>= fun p =>
      (linterConfig p.loaded.tree).mapError (fun _ => ()) >>= fun config =>
      (loadTree disablingSurroundings.workspace (fileOf r.2)).mapError (fun _ => ()) >>= fun _ =>
      .ok (r.1, r.2.values.keys, p.loaded.env.valueAt? Key.disable.path, config.disabled)) =
      .ok (.lint, [], some (Bytes.ofString "block-no-empty"), []) := by
    decide +kernel
  obtain ⟨⟨command, given⟩, hread, hrun⟩ := Command.exists_of_mapError_bind hrun
  obtain ⟨p, hplan, hrun⟩ := Command.exists_of_mapError_bind hrun
  obtain ⟨config, hconfig, hrun⟩ := Command.exists_of_mapError_bind hrun
  obtain ⟨file, hfile, hrun⟩ := Command.exists_of_mapError_bind hrun
  simp only [Except.ok.injEq, Prod.mk.injEq] at hrun
  obtain ⟨rfl, hflags, hvariable, hdisabled⟩ := hrun
  exact ⟨given, p, config, file, hread, hplan, hconfig, hfile, hflags, hvariable, hdisabled⟩

end TemplateLint.Settings
