import Tunnel.Text

/-!
# Args

The command line (`main.rs`): the options in one loop, what is left in a second one.

* `parse`: what `main` makes of its arguments.
* `words`: an argument vector as the first loop cuts it, an option with the argument it takes.
* `reads_readOptions`, `readPositional_ok_iff`: what each loop goes through, and what it ends with.
  `parse_spec`, `parse_returns`: both of them.
* `nothing_ignored_iff`: an argument is ignored when a settings option is repeated and nothing else
  is wrong.
-/

namespace Tunnel.Args
open Text

/-! ### The loops -/

/-- Why argument handling goes no further. -/
inductive Stop where
  | help
  | version
  | error (message : Text)
deriving DecidableEq, Repr

/-- The arms of the first loop's match. -/
inductive Arm where
  | help
  | version
  | verbose
  | direct
  | noRoute
  | log
  | settings
  | unknown
  | positional
deriving DecidableEq, Repr

def arm (a : Text) : Arm :=
  if a = lit "-h" ∨ a = lit "--help" then .help
  else if a = lit "-V" ∨ a = lit "--version" then .version
  else if a = lit "-v" ∨ a = lit "--verbose" then .verbose
  else if a = lit "-d" ∨ a = lit "--direct" then .direct
  else if a = lit "--no-route" then .noRoute
  else if a = lit "--log" then .log
  else if a = lit "-s" ∨ a = lit "--settings" then .settings
  else if (lit "-").isPrefixOf a then .unknown
  else .positional

/-- The variables the first loop assigns. -/
structure Options where
  settingsPath : Option Text
  verbose : Bool
  directMode : Bool
  installRoute : Bool
  logToFile : Bool
  positional : List Text
deriving DecidableEq, Repr

def Options.initial : Options := ⟨none, false, false, true, false, []⟩

/-- The first loop. -/
def readOptions (o : Options) : List Text → Except Stop Options
  | [] => .ok o
  | a :: rest =>
    match arm a with
    | .help => .error .help
    | .version => .error .version
    | .verbose => readOptions { o with verbose := true } rest
    | .direct => readOptions { o with directMode := true } rest
    | .noRoute => readOptions { o with installRoute := false } rest
    | .log => readOptions { o with logToFile := true } rest
    | .settings =>
      match rest with
      | [] => .error (.error (lit "--settings needs a path"))
      | path :: rest => readOptions { o with settingsPath := some path } rest
    | .unknown => .error (.error (lit "unknown option: " ++ a))
    | .positional => readOptions { o with positional := o.positional ++ [a] } rest

/-- The arms of the second loop's match. -/
inductive Kind where
  | command
  | file
  | unknown
deriving DecidableEq, Repr

def kind (a : Text) : Kind :=
  if a = lit "init" ∨ a = lit "gui" then .command
  else if (lit ".toml").isSuffixOf a then .file
  else .unknown

/-- The second loop. -/
def readPositional (settingsPath command : Option Text) :
    List Text → Except Stop (Option Text × Option Text)
  | [] => .ok (settingsPath, command)
  | a :: rest =>
    match kind a with
    | .command =>
      match command with
      | some prev =>
        .error (.error (lit "multiple commands given: " ++ prev ++ lit " and " ++ a))
      | none => readPositional settingsPath (some a) rest
    | .file =>
      match settingsPath with
      | some _ =>
        .error (.error (lit "settings file given twice (" ++ a ++ lit " and --settings)"))
      | none => readPositional (some a) command rest
    | .unknown =>
      .error (.error (lit "unknown argument: " ++ a ++ lit " (run with --help for usage)"))

/-- What argument handling hands on. -/
structure Invocation where
  settingsExplicit : Bool
  settingsPath : Text
  command : Option Text
  verbose : Bool
  directMode : Bool
  installRoute : Bool
  logToFile : Bool
deriving DecidableEq, Repr

/-- The start of `main`, the program's own name being the first argument. -/
def parse (args : List Text) : Except Stop Invocation := do
  let o ← readOptions .initial args.tail
  let (settingsPath, command) ← readPositional o.settingsPath none o.positional
  return {
    settingsExplicit := settingsPath.isSome
    settingsPath := settingsPath.getD (lit "tunnel.toml")
    command
    verbose := o.verbose
    directMode := o.directMode
    installRoute := o.installRoute
    logToFile := o.logToFile }

/-! ### What is on the line -/

/-- An option with the argument it takes, or a positional argument. -/
inductive Word where
  /-- One the first loop stops at. -/
  | stop
  | flag
  | settings (path : Text)
  | positional (a : Text)
deriving DecidableEq, Repr

def words : List Text → List Word
  | [] => []
  | a :: rest =>
    match arm a with
    | .help | .version | .unknown => .stop :: words rest
    | .verbose | .direct | .noRoute | .log => .flag :: words rest
    | .settings =>
      match rest with
      | [] => [.stop]
      | path :: rest => .settings path :: words rest
    | .positional => .positional a :: words rest

namespace Word

/-- The path of a settings option. -/
def option? : Word → Option Text
  | settings path => some path
  | _ => none

def positional? : Word → Option Text
  | positional a => some a
  | _ => none

/-- The positional argument, when it is of that kind. -/
def ofKind? (k : Kind) (w : Word) : Option Text := w.positional?.filter (kind · = k)

/-- A settings path in either form. -/
def settings? (w : Word) : Option Text := w.option?.or (w.ofKind? .file)

end Word

/-- The paths given with `-s` and `--settings`. -/
def settingsOptions (args : List Text) : List Text := (words args.tail).filterMap Word.option?

/-- The positional arguments of a kind. -/
def ofKind (k : Kind) (args : List Text) : List Text := (words args.tail).filterMap (Word.ofKind? k)

/-- Every settings path on the line, in order. -/
def suppliedSettings (args : List Text) : List Text := (words args.tail).filterMap Word.settings?

/-- Every command on the line, in order. -/
def suppliedCommands (args : List Text) : List Text := ofKind .command args

/-- At most one settings path and one command are on the line, and they are the ones handed on. -/
structure NothingIgnored (args : List Text) (inv : Invocation) : Prop where
  onePath : (suppliedSettings args).length ≤ 1
  pathUsed : ∀ path ∈ suppliedSettings args, inv.settingsExplicit = true ∧ inv.settingsPath = path
  oneCommand : (suppliedCommands args).length ≤ 1
  commandUsed : ∀ c ∈ suppliedCommands args, inv.command = some c

/-- A settings option is repeated, and nothing else on the line stops the loops. -/
structure Overridden (args : List Text) : Prop where
  repeated : 2 ≤ (settingsOptions args).length
  read : Word.stop ∉ words args.tail
  known : ofKind .unknown args = []
  noFile : ofKind .file args = []
  oneCommand : (suppliedCommands args).length ≤ 1

/-! ### The first loop -/

/-- The first loop, word by word. -/
inductive Reads : Options → List Word → Except Stop Options → Prop where
  | done (o : Options) : Reads o [] (.ok o)
  | stop (o : Options) (ws : List Word) (s : Stop) : Reads o (.stop :: ws) (.error s)
  | flag {o o₁ : Options} {ws : List Word} {r : Except Stop Options}
      (hs : o₁.settingsPath = o.settingsPath) (hp : o₁.positional = o.positional)
      (t : Reads o₁ ws r) : Reads o (.flag :: ws) r
  | settings {o : Options} {path : Text} {ws : List Word} {r : Except Stop Options}
      (t : Reads { o with settingsPath := some path } ws r) : Reads o (.settings path :: ws) r
  | positional {o : Options} {a : Text} {ws : List Word} {r : Except Stop Options}
      (t : Reads { o with positional := o.positional ++ [a] } ws r) :
      Reads o (.positional a :: ws) r

theorem reads_readOptions (o : Options) (args : List Text) :
    Reads o (words args) (readOptions o args) := by
  induction args using words.induct generalizing o with
  | case1 => exact .done o
  | case2 a rest h | case3 a rest h | case4 a rest h =>
      rw [words.eq_def, readOptions.eq_def]
      simp only [h]
      exact .stop _ _ _
  | case5 a rest h ih | case6 a rest h ih | case7 a rest h ih | case8 a rest h ih =>
      rw [words.eq_def, readOptions.eq_def]
      simp only [h]
      refine .flag ?_ ?_ (ih _) <;> rfl
  | case9 a h =>
      rw [words.eq_def, readOptions.eq_def]
      simp only [h]
      exact .stop _ _ _
  | case10 a h path rest ih =>
      rw [words.eq_def, readOptions.eq_def]
      simp only [h]
      exact .settings (ih _)
  | case11 a rest h ih =>
      rw [words.eq_def, readOptions.eq_def]
      simp only [h]
      exact .positional (ih _)

/-- The loop ends unless a word stops it. -/
theorem Reads.ok_iff {o : Options} {ws : List Word} {r : Except Stop Options} (h : Reads o ws r) :
    (∃ o', r = .ok o') ↔ Word.stop ∉ ws := by
  induction h with
  | done o => simp
  | stop => simp
  | flag _ _ _ ih | settings _ ih | positional _ ih => simp [ih]

/-- The last settings option is the one that counts. -/
theorem Reads.settingsPath {o o' : Options} {ws : List Word} (h : Reads o ws (.ok o')) :
    o'.settingsPath = (ws.filterMap Word.option?).getLast?.or o.settingsPath := by
  generalize hr : Except.ok o' = r at h
  induction h with
  | done o =>
      cases hr
      rfl
  | stop => cases hr
  | flag hs _ _ ih => rw [ih hr, hs]; rfl
  | @settings o path ws _ _ ih =>
      rw [ih hr, List.filterMap_cons_some (f := Word.option?) rfl, List.getLast?_cons]
      cases (ws.filterMap Word.option?).getLast? <;> rfl
  | positional _ ih => exact ih hr

theorem Reads.positional_eq {o o' : Options} {ws : List Word} (h : Reads o ws (.ok o')) :
    o'.positional = o.positional ++ ws.filterMap Word.positional? := by
  generalize hr : Except.ok o' = r at h
  induction h with
  | done o =>
      cases hr
      exact (List.append_nil _).symm
  | stop => cases hr
  | flag _ hp _ ih => rw [ih hr, hp]; rfl
  | settings _ ih => exact ih hr
  | positional _ ih =>
      rw [ih hr, List.append_assoc]
      rfl

/-! ### The second loop -/

/-- The second loop ends when every argument is known and no path or command is a second one. -/
theorem readPositional_ok_iff (s c s' c' : Option Text) (args : List Text) :
    readPositional s c args = .ok (s', c') ↔
      args.filter (kind · = .unknown) = [] ∧
        s'.toList = s.toList ++ args.filter (kind · = .file) ∧
        c'.toList = c.toList ++ args.filter (kind · = .command) := by
  induction args generalizing s c with
  | nil =>
      have hinj : ∀ x y : Option Text, x.toList = y.toList ↔ x = y := fun x y => by
        cases x <;> cases y <;> simp
      simp [readPositional, hinj, eq_comm]
  | cons a rest ih =>
      rw [readPositional.eq_def]
      dsimp only
      cases hk : kind a with
      | command =>
          cases c with
          | some prev =>
              refine iff_of_false nofun ?_
              rintro ⟨-, -, h⟩
              have := congrArg List.length h
              cases c' <;> simp [hk] at this
          | none => simp [ih, hk]
      | file =>
          cases s with
          | some prev =>
              refine iff_of_false nofun ?_
              rintro ⟨-, h, -⟩
              have := congrArg List.length h
              cases s' <;> simp [hk] at this
          | none => simp [ih, hk]
      | unknown => simp [hk]

/-! ### Both loops -/

/-- The second loop, on what the first one hands it. -/
theorem readPositional_of_readOptions {args : List Text} {o : Options}
    (h : readOptions .initial args.tail = .ok o) (s c : Option Text) :
    readPositional o.settingsPath none o.positional = .ok (s, c) ↔
      ofKind .unknown args = [] ∧
        s.toList = (settingsOptions args).getLast?.toList ++ ofKind .file args ∧
        c.toList = suppliedCommands args := by
  have hreads := reads_readOptions .initial args.tail
  rw [h] at hreads
  have hs := hreads.settingsPath
  have hp := hreads.positional_eq
  rw [Options.initial, Option.or_none] at hs
  rw [Options.initial, List.nil_append] at hp
  rw [readPositional_ok_iff, hs, hp, List.filter_filterMap, List.filter_filterMap,
    List.filter_filterMap]
  rfl

theorem parse_spec {args : List Text} {inv : Invocation} (h : parse args = .ok inv) :
    Word.stop ∉ words args.tail ∧ ofKind .unknown args = [] ∧ ∃ s : Option Text,
      s.toList = (settingsOptions args).getLast?.toList ++ ofKind .file args ∧
        inv.settingsExplicit = s.isSome ∧ inv.settingsPath = s.getD (lit "tunnel.toml") ∧
        inv.command.toList = suppliedCommands args := by
  have hok := (reads_readOptions .initial args.tail).ok_iff
  rw [parse] at h
  cases hr : readOptions .initial args.tail with
  | error e =>
      rw [hr] at h
      cases h
  | ok o =>
      rw [hr] at h
      cases hsc : readPositional o.settingsPath none o.positional with
      | error e => simp only [bind, Except.bind, hsc, reduceCtorEq] at h
      | ok p =>
          simp only [bind, Except.bind, hsc] at h
          cases h
          obtain ⟨hu, hs, hc⟩ := (readPositional_of_readOptions hr p.1 p.2).mp hsc
          exact ⟨hok.mp ⟨o, hr⟩, hu, p.1, hs, rfl, rfl, hc⟩

theorem exists_toList {xs : List Text} (h : xs.length ≤ 1) : ∃ x : Option Text, x.toList = xs := by
  match xs, h with
  | [], _ => exact ⟨none, rfl⟩
  | [x], _ => exact ⟨some x, rfl⟩

theorem parse_returns {args : List Text} (hstop : Word.stop ∉ words args.tail)
    (hu : ofKind .unknown args = [])
    (hs : ((settingsOptions args).getLast?.toList ++ ofKind .file args).length ≤ 1)
    (hc : (suppliedCommands args).length ≤ 1) : ∃ inv, parse args = .ok inv := by
  obtain ⟨o, hr⟩ := (reads_readOptions .initial args.tail).ok_iff.mpr hstop
  obtain ⟨s, hs⟩ := exists_toList hs
  obtain ⟨c, hc⟩ := exists_toList hc
  have hsc := (readPositional_of_readOptions hr s c).mpr ⟨hu, hs, hc⟩
  simp only [parse, hr, bind, Except.bind, hsc]
  exact ⟨_, rfl⟩

/-! ### Nothing is ignored -/

theorem suppliedSettings_of_noFile {args : List Text} (h : ofKind .file args = []) :
    suppliedSettings args = settingsOptions args := by
  refine List.filterMap_congr fun w hw => ?_
  rw [Word.settings?, List.filterMap_eq_nil_iff.mp h w hw, Option.or_none]

theorem suppliedSettings_of_noOption {args : List Text} (h : settingsOptions args = []) :
    suppliedSettings args = ofKind .file args := by
  refine List.filterMap_congr fun w hw => ?_
  rw [Word.settings?, List.filterMap_eq_nil_iff.mp h w hw, Option.none_or]

/-- A settings option leaves no room for a positional path. -/
theorem noFile_of_option {args : List Text} {s : Option Text}
    (hs : s.toList = (settingsOptions args).getLast?.toList ++ ofKind .file args)
    (h : settingsOptions args ≠ []) : ofKind .file args = [] := by
  have hlen := congrArg List.length hs
  rw [List.getLast?_eq_some_getLast h, List.length_append] at hlen
  have hle : s.toList.length ≤ 1 := by cases s <;> simp
  exact List.length_eq_zero_iff.mp (by simp at hlen; omega)

/-- Unless a settings option is repeated, the paths on the line are what the second loop ends
with. -/
theorem suppliedSettings_eq {args : List Text} {s : Option Text}
    (hs : s.toList = (settingsOptions args).getLast?.toList ++ ofKind .file args)
    (h : (settingsOptions args).length ≤ 1) : suppliedSettings args = s.toList := by
  obtain ⟨x, hx⟩ := exists_toList h
  cases x with
  | none =>
      rw [suppliedSettings_of_noOption hx.symm, hs, ← hx]
      rfl
  | some path =>
      have hfile : ofKind .file args = [] := noFile_of_option hs (hx ▸ List.cons_ne_nil path [])
      rw [suppliedSettings_of_noFile hfile, hs, hfile, ← hx]
      rfl

/-- An argument is ignored exactly when a settings option is repeated and nothing else on the line
stops the loops. -/
theorem nothing_ignored_iff (args : List Text) :
    (∀ inv, parse args = .ok inv → NothingIgnored args inv) ↔ ¬ Overridden args := by
  constructor
  · rintro h ⟨hrep, hstop, hu, hfile, hc⟩
    have hlen : ((settingsOptions args).getLast?.toList ++ ofKind .file args).length ≤ 1 := by
      rw [hfile, List.append_nil]
      cases (settingsOptions args).getLast? <;> simp
    obtain ⟨inv, hinv⟩ := parse_returns hstop hu hlen hc
    have hone := (h inv hinv).onePath
    rw [suppliedSettings_of_noFile hfile] at hone
    omega
  · intro h inv hinv
    obtain ⟨hstop, hu, s, hs, hexp, hpath, hcmd⟩ := parse_spec hinv
    have hc : (suppliedCommands args).length ≤ 1 := by
      rw [← hcmd]
      cases inv.command <;> simp
    have hopt : (settingsOptions args).length ≤ 1 := by
      by_contra hrep
      have hne : settingsOptions args ≠ [] := by
        intro he
        rw [he] at hrep
        exact hrep (Nat.zero_le 1)
      exact h ⟨by omega, hstop, hu, noFile_of_option hs hne, hc⟩
    have hsup := suppliedSettings_eq hs hopt
    refine ⟨?_, fun path hp => ?_, hc, fun c hcm => ?_⟩
    · rw [hsup]
      cases s <;> simp
    · rw [hsup, Option.mem_toList] at hp
      rw [hexp, hpath, hp]
      exact ⟨rfl, rfl⟩
    · rw [← hcmd, Option.mem_toList] at hcm
      exact hcm

theorem second_settings_replaces :
    ¬ ∀ inv, parse [lit "tunnel", lit "-s", lit "a.toml", lit "-s", lit "b.toml"] = .ok inv →
      NothingIgnored [lit "tunnel", lit "-s", lit "a.toml", lit "-s", lit "b.toml"] inv := by
  intro h
  have hone := (h ⟨true, lit "b.toml", none, false, false, true, false⟩ (by decide)).onePath
  revert hone
  decide

end Tunnel.Args
