import Tunnel.Support.Netfilter
import Tunnel.Text

/-!
# Engine — The kill switch

The packet filter on the uplink (`KillSwitch`), and the one that cuts the host off once a snooper is
found (`lockdown`).  Both are scripts for `nft`, taken as the commands they consist of.

* `applyAll_ruleset`, `applyAll_lockdown`: what a script makes of its table, also where an earlier
  run left one.
* `accepts_armed_iff`, `accepts_locked_iff`: the packets each table lets through.
-/

namespace Tunnel.Engine
open Support Text

/-! ### Rules -/

/-- `EGRESS_FWMARK`, on every socket of the exit. -/
def egressFwmark : UInt32 := 0x00007475

/-- The uplink: its interface. -/
structure EgressPin where
  device : Text
deriving DecidableEq

/-- What the rules test of a packet. -/
inductive Test where
  | iifname (dev : Text)
  | oifname (dev : Text)
  | oifnameNot (dev : Text)
  | metaMark (mark : UInt32)
  | udpSport (port : UInt16)
  | udpDport (port : UInt16)
deriving DecidableEq

/-- A packet at a hook.  The source and destination port, of a UDP datagram. -/
structure Packet where
  iifname : Text
  oifname : Text
  mark : UInt32
  udp : Option (UInt16 × UInt16)
deriving DecidableEq

def Test.holds : Test → Packet → Bool
  | .iifname dev, p => p.iifname = dev
  | .oifname dev, p => p.oifname = dev
  | .oifnameNot dev, p => p.oifname ≠ dev
  | .metaMark mark, p => p.mark = mark
  | .udpSport port, p => p.udp.any fun ports => ports.1 = port
  | .udpDport port, p => p.udp.any fun ports => ports.2 = port

abbrev Firewall := Ruleset Text Test

abbrev NftCmd := FilterCmd Text Test

/-! ### nft -/

/-- An invocation of `nft`: the error of one that fails whatever the script, and what it says of a
script it refuses. -/
structure Nft where
  fault : Option Text
  refusal : Text

def nftApply (nft : Nft) (script : List NftCmd) (fw : Firewall) : Except Text Unit × Firewall :=
  match nft.fault with
  | some e => (.error e, fw)
  | none =>
    match fw.applyAll script with
    | none => (.error nft.refusal, fw)
    | some fw => (.ok (), fw)

/-! ### The kill switch -/

/-- `TABLE`, and `KILLSWITCH_TABLE` of the preflight. -/
def killswitchTable : Text := lit "tunnel_killswitch"

def ruleset (dev : Text) : List NftCmd :=
  let table := killswitchTable
  let output := lit "output"
  [.addTable table,
    .flushTable table,
    .addChain table output .output 0 .accept,
    .addRule table output ⟨[.oifnameNot dev], .accept⟩,
    .addRule table output ⟨[.metaMark egressFwmark], .accept⟩,
    .addRule table output ⟨[.udpSport 68, .udpDport 67], .accept⟩,
    .addRule table output ⟨[], .drop⟩]

inductive KillSwitchError where
  /-- "no uplink interface identified — cannot scope the kill switch (uplink discovery must succeed
  first)" -/
  | noUplink
  /-- "refusing unusual uplink interface name: {:?}" -/
  | unusualName (device : Text)
  | nft (e : Text)
deriving DecidableEq

/-- A character that the name of an interface can contain. -/
def deviceChar (c : Char) : Bool :=
  c.isAlphanum || c == '.' || c == '_' || c == '-' || c == '@'

/-- An armed kill switch. -/
structure KillSwitch where
  installed : Bool
deriving DecidableEq

namespace KillSwitch

def install (nft : Nft) (uplink : EgressPin) (fw : Firewall) :
    Except KillSwitchError KillSwitch × Firewall :=
  if uplink.device.isEmpty then (.error .noUplink, fw)
  else if !uplink.device.all deviceChar then (.error (.unusualName uplink.device), fw)
  else
    match nftApply nft (ruleset uplink.device) fw with
    | (.error e, fw) => (.error (.nft e), fw)
    | (.ok (), fw) => (.ok ⟨true⟩, fw)

def drop (nft : Nft) (ks : KillSwitch) (fw : Firewall) : Firewall :=
  if !ks.installed then fw else (nftApply nft [.deleteTable killswitchTable] fw).2

end KillSwitch

/-! ### The lockdown -/

def panicTable : Text := lit "tunnel_panic"

def lockdownScript : List NftCmd :=
  let table := panicTable
  [.addTable table,
    .flushTable table,
    .addChain table (lit "input") .input (-300) .drop,
    .addChain table (lit "output") .output (-300) .drop,
    .addChain table (lit "forward") .forward (-300) .drop,
    .addRule table (lit "input") ⟨[.iifname (lit "lo")], .accept⟩,
    .addRule table (lit "output") ⟨[.oifname (lit "lo")], .accept⟩]

/-- Whether the block is in place. -/
def lockdown (nft : Nft) (fw : Firewall) : Bool × Firewall :=
  match nftApply nft lockdownScript fw with
  | (.ok (), fw) => (true, fw)
  | (.error _, fw) => (false, fw)

/-! ### What the tables are -/

/-- The chain that polices the uplink. -/
def uplinkChain (dev : Text) : Chain Test where
  hook := .output
  priority := 0
  policy := .accept
  rules := [⟨[.oifnameNot dev], .accept⟩, ⟨[.metaMark egressFwmark], .accept⟩,
    ⟨[.udpSport 68, .udpDport 67], .accept⟩, ⟨[], .drop⟩]

def uplinkChains (dev : Text) : ChainList Text Test := [⟨lit "output", uplinkChain dev⟩]

/-- The table of the kill switch. -/
def armed (dev : Text) : Chains Text Test := (uplinkChains dev).toFinmap

def panicChains : ChainList Text Test :=
  [⟨lit "input", .input, -300, .drop, [⟨[.iifname (lit "lo")], .accept⟩]⟩,
    ⟨lit "output", .output, -300, .drop, [⟨[.oifname (lit "lo")], .accept⟩]⟩,
    ⟨lit "forward", .forward, -300, .drop, []⟩]

/-- The table of the lockdown. -/
def locked : Chains Text Test := panicChains.toFinmap

theorem nodup_uplinkChains (dev : Text) : (uplinkChains dev).NodupKeys :=
  List.nodupKeys_singleton _

theorem nodup_panicChains : panicChains.NodupKeys := by
  have h : panicChains.keys.Nodup := by decide
  exact h

theorem applyAll_ruleset {fw : Firewall} (dev : Text)
    (h : ∀ chains, fw.lookup killswitchTable = some chains → ∃ dev', chains = armed dev') :
    fw.applyAll (ruleset dev) = some (fw.insert killswitchTable (armed dev)) := by
  have hfits : ∀ chains, fw.lookup killswitchTable = some chains →
      Fits (uplinkChains dev) chains := by
    intro chains hc name c hl
    obtain ⟨dev', rfl⟩ := h chains hc
    rw [armed, Finmap.dlookup_list_toFinmap] at hl
    by_cases hn : name = lit "output"
    · subst hn
      cases hl
      exact ⟨uplinkChain dev, rfl, rfl, rfl⟩
    · rw [uplinkChains, List.dlookup_cons_ne _ _ hn] at hl
      cases hl
  exact Ruleset.applyAll_setUp (nodup_uplinkChains dev) hfits

theorem applyAll_lockdown {fw : Firewall}
    (h : ∀ chains, fw.lookup panicTable = some chains → chains = locked) :
    fw.applyAll lockdownScript = some (fw.insert panicTable locked) := by
  have hfits : ∀ chains, fw.lookup panicTable = some chains → Fits panicChains chains := by
    intro chains hc name c hl
    rw [h chains hc, locked, Finmap.dlookup_list_toFinmap] at hl
    exact ⟨c, hl, rfl, rfl⟩
  exact Ruleset.applyAll_setUp nodup_panicChains hfits

/-! ### What the tables let through -/

/-- A renewal of a lease: from the port of a DHCP client to the one of a server. -/
def Packet.isDhcp (p : Packet) : Bool := p.udp = some (68, 67)

/-- What may leave through the uplink. -/
def Packet.isOwn (p : Packet) : Bool := p.mark = egressFwmark || p.isDhcp

theorem verdict_uplinkChain (dev : Text) (p : Packet) :
    (uplinkChain dev).verdict Test.holds p = .accept ↔ (p.oifname = dev → p.isOwn = true) := by
  have hd : (p.udp.any (fun ports => ports.1 = 68) && p.udp.any fun ports => ports.2 = 67) =
      p.isDhcp := by
    unfold Packet.isDhcp
    cases p.udp with
    | none => rfl
    | some ports => simp [Prod.ext_iff]
  by_cases ho : p.oifname = dev <;> by_cases hm : p.mark = egressFwmark <;>
    cases hp : p.isDhcp <;> rw [hp] at hd <;>
    simp [uplinkChain, Chain.verdict, Rule.applies, Test.holds, Packet.isOwn, ho, hm, hp, hd]

theorem accepts_armed_iff (dev : Text) (p : Packet) :
    Accepts Test.holds (armed dev) .output p ↔ (p.oifname = dev → p.isOwn = true) := by
  rw [armed, accepts_toFinmap (nodup_uplinkChains dev), uplinkChains, List.forall_mem_singleton,
    ← verdict_uplinkChain]
  exact ⟨fun h => h rfl, fun h _ => h⟩

/-- Loopback, and nothing else, in either direction. -/
theorem accepts_locked_iff (h : Hook) (p : Packet) :
    Accepts Test.holds locked h p ↔
      (h = .input → p.iifname = lit "lo") ∧ (h = .output → p.oifname = lit "lo") ∧ h ≠ .forward := by
  rw [locked, accepts_toFinmap nodup_panicChains]
  simp only [panicChains, List.forall_mem_cons]
  cases h with
  | input =>
      by_cases hi : p.iifname = lit "lo" <;> simp [Chain.verdict, Rule.applies, Test.holds, hi]
  | output =>
      by_cases ho : p.oifname = lit "lo" <;> simp [Chain.verdict, Rule.applies, Test.holds, ho]
  | forward => simp [Chain.verdict]

end Tunnel.Engine
