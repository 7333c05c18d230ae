import Tunnel.Support.Table

/-!
# Support — Packet filters

Tables of chains of rules, as netfilter holds them.  A chain is attached to a hook; the first of its
rules that applies to a packet decides, and its policy where none does.  A packet passes a hook when
every chain at it accepts, so the order in which chains are consulted does not matter, and a table
can only take packets away from what the others let through.

A script is applied as a whole: `applyAll` fails when one of its commands does.

* `passes_iff`: a packet passes exactly when the chains of one table accept it, and those of the
  others do.
* `applyAll_eq`: a script about one table is a function of that table, and leaves the others.
* `applyAll_setUp`: a script that flushes a table and adds its chains and their rules leaves the
  table with them, also where an earlier run of such a script left one.
-/

namespace Support

inductive Hook where
  | input
  | forward
  | output
deriving DecidableEq

inductive Verdict where
  | accept
  | drop
deriving DecidableEq

/-- What becomes of a packet that all the tests hold of. -/
structure Rule (T : Type) where
  tests : List T
  verdict : Verdict
deriving DecidableEq

structure Chain (T : Type) where
  hook : Hook
  priority : ℤ
  policy : Verdict
  rules : List (Rule T)

/-- The chains of a table, by their names. -/
abbrev Chains (K T : Type) := Table K (Chain T)

abbrev Ruleset (K T : Type) := Table K (Chains K T)

inductive FilterCmd (K T : Type) where
  | addTable (table : K)
  | flushTable (table : K)
  | addChain (table chain : K) (hook : Hook) (priority : ℤ) (policy : Verdict)
  | addRule (table chain : K) (rule : Rule T)
  | deleteTable (table : K)

variable {K T P : Type}

/-! ### Verdicts -/

section
variable (holds : T → P → Bool)

def Rule.applies (r : Rule T) (p : P) : Bool := r.tests.all (holds · p)

def Chain.verdict (c : Chain T) (p : P) : Verdict :=
  ((c.rules.find? (·.applies holds p)).map (·.verdict)).getD c.policy

/-- The chains of a table at a hook accept the packet. -/
def Accepts (chains : Chains K T) (h : Hook) (p : P) : Prop :=
  ∀ c ∈ chains.entries, c.2.hook = h → c.2.verdict holds p = .accept

def Passes (rs : Ruleset K T) (h : Hook) (p : P) : Prop :=
  ∀ t ∈ rs.entries, Accepts holds t.2 h p

instance (chains : Chains K T) (h : Hook) (p : P) : Decidable (Accepts holds chains h p) :=
  inferInstanceAs (Decidable (∀ c ∈ chains.entries, c.2.hook = h → c.2.verdict holds p = .accept))

instance (rs : Ruleset K T) (h : Hook) (p : P) : Decidable (Passes holds rs h p) :=
  inferInstanceAs (Decidable (∀ t ∈ rs.entries, Accepts holds t.2 h p))

end

variable [DecidableEq K] {holds : T → P → Bool}

theorem accepts_iff {chains : Chains K T} {h : Hook} {p : P} :
    Accepts holds chains h p ↔
      ∀ name c, chains.lookup name = some c → c.hook = h → c.verdict holds p = .accept := by
  constructor
  · intro ha name c hc
    exact ha ⟨name, c⟩ (Finmap.lookup_eq_some_iff_mem.mp hc)
  · intro ha c hc
    exact ha c.1 c.2 (Finmap.lookup_eq_some_iff_mem.mpr hc)

theorem passes_lookup {rs : Ruleset K T} {h : Hook} {p : P} :
    Passes holds rs h p ↔ ∀ name chains, rs.lookup name = some chains → Accepts holds chains h p := by
  constructor
  · intro hp name chains hc
    exact hp ⟨name, chains⟩ (Finmap.lookup_eq_some_iff_mem.mp hc)
  · intro hp t ht
    exact hp t.1 t.2 (Finmap.lookup_eq_some_iff_mem.mpr ht)

/-- One table, and the others. -/
theorem passes_iff {rs : Ruleset K T} {table : K} {chains : Chains K T} {h : Hook} {p : P}
    (hl : rs.lookup table = some chains) :
    Passes holds rs h p ↔ Accepts holds chains h p ∧ Passes holds (rs.erase table) h p := by
  simp only [passes_lookup, Finmap.lookup_erase_eq]
  constructor
  · intro hp
    refine ⟨hp table chains hl, fun name cs hc => ?_⟩
    split at hc
    · cases hc
    · exact hp name cs hc
  · rintro ⟨ha, hp⟩ name cs hc
    by_cases hn : name = table
    · rw [hn, hl] at hc
      exact Option.some.inj hc ▸ ha
    · exact hp name cs (by rw [if_neg hn, hc])

/-! ### Scripts -/

/-- The rules of every chain are dropped; the chains stay. -/
def Chains.flush (chains : Chains K T) : Chains K T :=
  ⟨chains.entries.map fun e => ⟨e.1, { e.2 with rules := [] }⟩, by
    have hk : (chains.entries.map fun e => (⟨e.1, { e.2 with rules := [] }⟩ :
        Σ _ : K, Chain T)).keys = chains.entries.keys := by
      simp [Multiset.keys]
    exact Multiset.nodup_keys.mp (hk ▸ Multiset.nodup_keys.mpr chains.nodupKeys)⟩

theorem Chains.lookup_flush (chains : Chains K T) (name : K) :
    chains.flush.lookup name = (chains.lookup name).map fun c => { c with rules := [] } := by
  ext c
  simp only [Finmap.lookup_eq_some_iff_mem, Option.map_eq_some_iff, flush, Multiset.mem_map]
  constructor
  · rintro ⟨e, he, heq⟩
    cases heq
    exact ⟨e.2, he, rfl⟩
  · rintro ⟨c', hc, rfl⟩
    exact ⟨⟨name, c'⟩, hc, rfl⟩

namespace FilterCmd

def table : FilterCmd K T → K
  | .addTable t | .flushTable t | .addChain t _ _ _ _ | .addRule t _ _ | .deleteTable t => t

/-- What a command does to the table it names, which may not be there.  Adding what exists is no
error, unless a chain would have to move. -/
def act : FilterCmd K T → Option (Chains K T) → Option (Option (Chains K T))
  | .addTable _, o => some (some (o.getD ∅))
  | .flushTable _, o => o.map fun chains => some chains.flush
  | .addChain _ name hook priority policy, o => do
    let chains ← o
    match chains.lookup name with
    | none => some (some (chains.insert name ⟨hook, priority, policy, []⟩))
    | some c =>
      if c.hook = hook ∧ c.priority = priority then
        some (some (chains.insert name { c with policy }))
      else none
  | .addRule _ name rule, o => do
    let chains ← o
    let c ← chains.lookup name
    some (some (chains.insert name { c with rules := c.rules ++ [rule] }))
  | .deleteTable _, o => o.map fun _ => none

end FilterCmd

namespace Ruleset

/-- Make a table what is given. -/
def put (rs : Ruleset K T) (t : K) : Option (Chains K T) → Ruleset K T
  | none => rs.erase t
  | some chains => rs.insert t chains

theorem lookup_put (rs : Ruleset K T) (t name : K) (o : Option (Chains K T)) :
    (rs.put t o).lookup name = if name = t then o else rs.lookup name := by
  cases o with
  | none => exact Finmap.lookup_erase_eq rs t name
  | some chains => exact Finmap.lookup_insert_eq rs t name chains

@[simp] theorem put_lookup (rs : Ruleset K T) (t : K) : rs.put t (rs.lookup t) = rs :=
  Finmap.ext_lookup fun name => by
    rw [lookup_put]
    split
    · next h => rw [h]
    · rfl

@[simp] theorem put_put (rs : Ruleset K T) (t : K) (o o' : Option (Chains K T)) :
    (rs.put t o).put t o' = rs.put t o' :=
  Finmap.ext_lookup fun name => by
    simp only [lookup_put]
    split <;> rfl

def run (rs : Ruleset K T) (cmd : FilterCmd K T) : Option (Ruleset K T) :=
  (cmd.act (rs.lookup cmd.table)).map (rs.put cmd.table)

/-- Apply the commands in order, or none of them. -/
def applyAll (rs : Ruleset K T) (script : List (FilterCmd K T)) : Option (Ruleset K T) :=
  script.foldlM run rs

end Ruleset

/-- What a script does to the one table it is about. -/
def actAll (script : List (FilterCmd K T)) (o : Option (Chains K T)) :
    Option (Option (Chains K T)) :=
  script.foldlM (fun o cmd => cmd.act o) o

theorem Ruleset.applyAll_eq {t : K} {script : List (FilterCmd K T)}
    (hs : ∀ cmd ∈ script, cmd.table = t) (rs : Ruleset K T) :
    rs.applyAll script = (actAll script (rs.lookup t)).map (rs.put t) := by
  induction script generalizing rs with
  | nil => simp [applyAll, actAll]
  | cons cmd rest ih =>
      obtain ⟨ht, hrest⟩ := List.forall_mem_cons.mp hs
      rw [applyAll, actAll, List.foldlM_cons, List.foldlM_cons, run, ht]
      cases ha : cmd.act (rs.lookup t) with
      | none => rfl
      | some o =>
          change (rs.put t o).applyAll rest = (actAll rest o).map (rs.put t)
          rw [ih hrest, lookup_put, if_pos rfl]
          congr 1
          funext o'
          exact put_put rs t o o'

theorem actAll_append (s₁ s₂ : List (FilterCmd K T)) (o : Option (Chains K T)) :
    actAll (s₁ ++ s₂) o = (actAll s₁ o).bind (actAll s₂) := by
  rw [actAll, List.foldlM_append]
  rfl

/-! ### Setting a table up -/

/-- Chains with their names, in the order in which they are added. -/
abbrev ChainList (K T : Type) := List (Σ _ : K, Chain T)

theorem accepts_toFinmap {spec : ChainList K T} (hn : spec.NodupKeys) {h : Hook} {p : P} :
    Accepts holds spec.toFinmap h p ↔
      ∀ x ∈ spec, x.2.hook = h → x.2.verdict holds p = .accept := by
  rw [accepts_iff]
  simp only [Finmap.dlookup_list_toFinmap]
  constructor
  · intro ha x hx
    exact ha x.1 x.2 (List.mem_dlookup hn hx)
  · intro ha name c hc
    exact ha ⟨name, c⟩ (List.of_mem_dlookup hc)

/-- A table, flushed where there is one, and its chains and rules. -/
def setUp (t : K) (spec : ChainList K T) : List (FilterCmd K T) :=
  [.addTable t, .flushTable t] ++
    spec.map (fun x => .addChain t x.1 x.2.hook x.2.priority x.2.policy) ++
    spec.flatMap fun x => x.2.rules.map (.addRule t x.1)

omit [DecidableEq K] in
theorem table_setUp {t : K} {spec : ChainList K T} : ∀ cmd ∈ setUp t spec, cmd.table = t := by
  intro cmd hc
  simp only [setUp, List.mem_append, List.mem_cons, List.not_mem_nil, or_false, List.mem_map,
    List.mem_flatMap] at hc
  rcases hc with ((rfl | rfl) | ⟨x, -, rfl⟩) | ⟨x, -, r, -, rfl⟩ <;> rfl

/-- Every chain of the table is one of the chains, where it is. -/
def Fits (spec : ChainList K T) (chains : Chains K T) : Prop :=
  ∀ name c, chains.lookup name = some c →
    ∃ c', spec.dlookup name = some c' ∧ c'.hook = c.hook ∧ c'.priority = c.priority

/-- A chain before it has rules. -/
def Chain.bare (c : Chain T) : Chain T := { c with rules := [] }

theorem actAll_addChains {t : K} {spec : ChainList K T} (hn : spec.NodupKeys) {chains : Chains K T}
    (hf : ∀ x ∈ spec, ∀ c, chains.lookup x.1 = some c →
      c.hook = x.2.hook ∧ c.priority = x.2.priority ∧ c.rules = []) :
    ∃ chains', actAll (spec.map fun x => .addChain t x.1 x.2.hook x.2.priority x.2.policy)
        (some chains) = some (some chains') ∧
      ∀ name, chains'.lookup name =
        ((spec.dlookup name).map Chain.bare).or (chains.lookup name) := by
  induction spec generalizing chains with
  | nil => exact ⟨chains, rfl, fun name => rfl⟩
  | cons x rest ih =>
      rw [List.nodupKeys_cons] at hn
      obtain ⟨hx, hrest⟩ := List.forall_mem_cons.mp hf
      have hact : FilterCmd.act (.addChain t x.1 x.2.hook x.2.priority x.2.policy) (some chains) =
          some (some (chains.insert x.1 x.2.bare)) := by
        rw [FilterCmd.act, Option.bind_eq_bind, Option.bind_some]
        cases hl : chains.lookup x.1 with
        | none => rfl
        | some c =>
            obtain ⟨hh, hp, hr⟩ := hx c hl
            obtain ⟨hook, priority, policy, rules⟩ := c
            cases hh
            cases hp
            cases hr
            exact if_pos ⟨rfl, rfl⟩
      have hkeep : ∀ y ∈ rest, ∀ c, (chains.insert x.1 x.2.bare).lookup y.1 = some c →
          c.hook = y.2.hook ∧ c.priority = y.2.priority ∧ c.rules = [] := by
        intro y hy c hc
        have hne : y.1 ≠ x.1 := fun h => hn.1 (h ▸ List.mem_keys_of_mem hy)
        rw [Finmap.lookup_insert_eq, if_neg hne] at hc
        exact hrest y hy c hc
      obtain ⟨chains', hrun, hl⟩ := ih hn.2 hkeep
      refine ⟨chains', ?_, fun name => ?_⟩
      · rw [List.map_cons, actAll, List.foldlM_cons, hact]
        exact hrun
      · rw [hl, Finmap.lookup_insert_eq]
        by_cases h : name = x.1
        · rw [h, List.dlookup_eq_none.mpr hn.1, List.dlookup_cons_eq, if_pos rfl]
          rfl
        · rw [List.dlookup_cons_ne _ _ h, if_neg h]

theorem actAll_addRules {t name : K} {c : Chain T} (rules : List (Rule T)) {chains : Chains K T}
    (hl : chains.lookup name = some c) :
    actAll (rules.map (.addRule t name)) (some chains) =
      some (some (chains.insert name { c with rules := c.rules ++ rules })) := by
  induction rules generalizing c chains with
  | nil =>
      rw [List.append_nil, Finmap.insert_lookup hl]
      rfl
  | cons r rest ih =>
      have hact : FilterCmd.act (.addRule t name r) (some chains) =
          some (some (chains.insert name { c with rules := c.rules ++ [r] })) := by
        rw [FilterCmd.act, Option.bind_eq_bind, Option.bind_some, hl]
        rfl
      rw [List.map_cons, actAll, List.foldlM_cons, hact]
      have hr : (chains.insert name { c with rules := c.rules ++ [r] }).lookup name =
          some { c with rules := c.rules ++ [r] } := Finmap.lookup_insert chains
      have hrest := ih hr
      rw [List.append_assoc, Finmap.insert_insert] at hrest
      exact hrest

theorem actAll_rules {t : K} {spec : ChainList K T} (hn : spec.NodupKeys) {chains : Chains K T}
    (hb : ∀ x ∈ spec, chains.lookup x.1 = some x.2.bare) :
    ∃ chains', actAll (spec.flatMap fun x => x.2.rules.map (.addRule t x.1)) (some chains) =
        some (some chains') ∧
      ∀ name, chains'.lookup name = (spec.dlookup name).or (chains.lookup name) := by
  induction spec generalizing chains with
  | nil => exact ⟨chains, rfl, fun name => rfl⟩
  | cons x rest ih =>
      rw [List.nodupKeys_cons] at hn
      obtain ⟨hx, hrest⟩ := List.forall_mem_cons.mp hb
      have hkeep : ∀ y ∈ rest, (chains.insert x.1 x.2).lookup y.1 = some y.2.bare := by
        intro y hy
        have hne : y.1 ≠ x.1 := fun h => hn.1 (h ▸ List.mem_keys_of_mem hy)
        rw [Finmap.lookup_insert_eq, if_neg hne]
        exact hrest y hy
      obtain ⟨chains', hrun, hl⟩ := ih hn.2 hkeep
      refine ⟨chains', ?_, fun name => ?_⟩
      · have hadd := actAll_addRules (t := t) x.2.rules hx
        rw [List.flatMap_cons, actAll_append, hadd, Option.bind_some]
        exact hrun
      · rw [hl, Finmap.lookup_insert_eq]
        by_cases h : name = x.1
        · rw [h, List.dlookup_eq_none.mpr hn.1, List.dlookup_cons_eq, if_pos rfl]
          rfl
        · rw [List.dlookup_cons_ne _ _ h, if_neg h]

theorem Ruleset.applyAll_setUp {t : K} {spec : ChainList K T} (hn : spec.NodupKeys)
    {rs : Ruleset K T} (hf : ∀ chains, rs.lookup t = some chains → Fits spec chains) :
    rs.applyAll (setUp t spec) = some (rs.insert t spec.toFinmap) := by
  -- the table after the flush: its chains fit, and have no rules
  have hbase : ∃ base, actAll [.addTable t, .flushTable t] (rs.lookup t) = some (some base) ∧
      ∀ name c, base.lookup name = some c →
        c.rules = [] ∧ ∃ c', spec.dlookup name = some c' ∧ c'.hook = c.hook ∧
          c'.priority = c.priority := by
    refine ⟨((rs.lookup t).getD ∅).flush, rfl, fun name c hc => ?_⟩
    rw [Chains.lookup_flush] at hc
    cases hl : rs.lookup t with
    | none => simp [hl] at hc
    | some chains =>
        rw [hl, Option.getD_some, Option.map_eq_some_iff] at hc
        obtain ⟨c₀, hc₀, rfl⟩ := hc
        exact ⟨rfl, hf chains hl name c₀ hc₀⟩
  obtain ⟨base, hflush, hempty⟩ := hbase
  have hmem : ∀ x ∈ spec, spec.dlookup x.1 = some x.2 := fun x hx => List.mem_dlookup hn hx
  have hfits : ∀ x ∈ spec, ∀ c, base.lookup x.1 = some c →
      c.hook = x.2.hook ∧ c.priority = x.2.priority ∧ c.rules = [] := by
    intro x hx c hc
    obtain ⟨hr, c', hc', hh, hp⟩ := hempty x.1 c hc
    rw [hmem x hx] at hc'
    cases hc'
    exact ⟨hh.symm, hp.symm, hr⟩
  obtain ⟨added, hadd, hadded⟩ := actAll_addChains (t := t) hn hfits
  have hbare : ∀ x ∈ spec, added.lookup x.1 = some x.2.bare := by
    intro x hx
    rw [hadded, hmem x hx]
    rfl
  obtain ⟨full, hrules, hfull⟩ := actAll_rules (t := t) hn hbare
  have hchains : full = spec.toFinmap := Finmap.ext_lookup fun name => by
    rw [hfull, hadded, Finmap.dlookup_list_toFinmap]
    cases hl : spec.dlookup name with
    | some c => rfl
    | none =>
        cases hb : base.lookup name with
        | none => rfl
        | some c =>
            obtain ⟨-, c', hc', -⟩ := hempty name c hb
            rw [hl] at hc'
            cases hc'
  rw [applyAll_eq table_setUp, setUp, actAll_append, actAll_append, hflush, Option.bind_some, hadd,
    Option.bind_some, hrules, Option.map_some, hchains]
  rfl

end Support
