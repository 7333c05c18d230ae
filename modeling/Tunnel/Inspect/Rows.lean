import Tunnel.Inspect.Lru
import Tunnel.Inspect.Monitor

/-!
# Inspect — Rows and hosts

What the monitor's operations do to the part of its state that labels depend on: a row of the live
table as its label, its bytes and its last packet (`Row`), and the hosts as a plain LRU.

* `relabel_flow`, `Simulates.correlate_spec`, `Simulates.upgrade_spec`: the label of one flow.
* `Inner.recordRow_heard`: a packet.
* `Inner.sweep_idle`, `Inner.refreshAll_rows`: the two walks of a tick.  The second brings the hosts
  it visits to the front, and changes nothing that is known of a host (`SameKnown`).
* `Inner.noteFlow_rows`, `Inner.markOwn_rows`: the calls that change nothing of this.
-/

namespace Tunnel.Inspect
open Support

/-! ### Rows -/

/-- The label's flow runs BitTorrent. -/
def AppProto.torrenting (app : AppProto) : Bool := app.family &&& Family.TORRENTING != 0

/-- What labels and hosts depend on, of a row of the live table. -/
structure Row where
  app : AppProto
  bytes : ℕ
  lastSeen : Instant
deriving DecidableEq

def Flow.row (f : Flow) : Row := ⟨f.app, f.up + f.down, f.lastSeen⟩

def Inner.row (s : Inner) (k : FlowKey) : Option Row := (s.flows.lookup k).map Flow.row

/-- A packet labelled `app` opens its flow, or names it better. -/
def adopts (row : Option Row) (app : AppProto) : Bool := row.all fun r => r.app.rank < app.rank

/-- The label of a packet's flow before its host is looked at. -/
def adopted (row : Option Row) (app : AppProto) : AppProto :=
  match row with
  | none => app
  | some r => if r.app.rank < app.rank then app else r.app

/-- The label of a flow to a host that torrents, or does not. -/
def correlated (torrents : Bool) (app : AppProto) : AppProto :=
  if app = .obfuscated ∧ torrents = true then .obfuscatedBt else app

/-- The row with a packet of `len` bytes, labelled `app`. -/
def heard (row : Option Row) (torrents : Bool) (app : AppProto) (len : ℕ) (now : Instant) : Row :=
  ⟨correlated torrents (adopted row app), (row.map Row.bytes).getD 0 + len, now⟩

/-- The row after the second walk of a tick. -/
def Row.correlated (torrents : Bool) (r : Row) : Row :=
  { r with app := Inspect.correlated torrents r.app }

theorem torrenting_correlated (torrents : Bool) (app : AppProto) :
    (correlated torrents app).torrenting = app.torrenting := by
  unfold correlated
  split
  · next h => rw [h.1]; decide
  · rfl

theorem rank_correlated (t : Bool) (app : AppProto) : (correlated t app).rank = app.rank := by
  unfold correlated
  split
  · next h => rw [h.1]; rfl
  · rfl

/-- A flow's label is given up for a better one alone. -/
theorem rank_le_heard (r : Row) (t : Bool) (app : AppProto) (len : ℕ) (now : Instant) :
    r.app.rank ≤ (heard (some r) t app len now).app.rank := by
  rw [heard, rank_correlated, adopted]
  split
  · next h => exact Nat.le_of_lt h
  · exact Nat.le_refl _

theorem relabel_flow (f : Flow) (protoBytes : Counters String) (app : AppProto) :
    ∃ protoBytes', relabel saturating f protoBytes app = .ok ({ f with app }, protoBytes') := by
  unfold relabel
  dsimp only
  split
  · exact ⟨_, rfl⟩
  · exact ⟨_, rfl⟩

namespace Simulates

variable {a : PeerArena} {nodes : List (UInt32 × Host)} {l : HostList} {ip : IpAddr}

theorem isTorrenting (h : Simulates a nodes l) (ip : IpAddr) :
    a.isTorrenting ip = .ok (l.torrents ip) := by
  obtain ⟨e, he, hb⟩ := h.get ip
  rw [PeerArena.isTorrenting, he, ok_bind, HostList.torrents]
  cases hf : l.find ip with
  | none =>
      rw [hf] at hb
      cases e with
      | none => rfl
      | some e => cases hb
  | some x =>
      rw [hf] at hb
      cases e with
      | none => cases hb
      | some e =>
          have hfam := congrArg PeerEntry.families (Option.some.inj hb)
          rw [show e.bare.families = e.families from rfl] at hfam
          dsimp only [pure_eq_ok, Option.any_some]
          rw [hfam]
          rfl

theorem lookup_of_holds (h : Simulates a nodes l) (hip : l.Holds ip) :
    ∃ i, a.index.lookup ip = some i :=
  Option.ne_none_iff_exists'.mp fun hn => HostList.holds_iff_find.mp hip (h.lookup_eq_none.mp hn)

theorem correlate_spec (h : Simulates a nodes l) (f : Flow) (protoBytes : Counters String)
    (ip : IpAddr) : ∃ protoBytes', correlate saturating f protoBytes a ip =
      .ok ({ f with app := correlated (l.torrents ip) f.app }, protoBytes') := by
  unfold correlate correlated
  by_cases ha : f.app = .obfuscated
  · rw [if_pos ha, h.isTorrenting, ok_bind]
    cases ht : l.torrents ip with
    | true =>
        obtain ⟨protoBytes', e⟩ := relabel_flow f protoBytes .obfuscatedBt
        exact ⟨protoBytes', by simp [ha, e]⟩
    | false => exact ⟨protoBytes, by simp⟩
  · rw [if_neg ha]
    exact ⟨protoBytes, by simp [ha]⟩

theorem upgrade_spec (h : Simulates a nodes l) (hip : l.Holds ip) (f : Flow)
    (protoBytes : Counters String) (app : AppProto) (now : Instant) :
    ∃ protoBytes' a' nodes', upgrade saturating f protoBytes a ip app now =
        .ok ({ f with app := adopted (some f.row) app }, protoBytes', a') ∧
      Simulates a' nodes'
        (if f.app.rank < app.rank then (l.touch ip app.family now).2 else l) := by
  unfold upgrade adopted
  dsimp only [Flow.row]
  by_cases hr : f.app.rank < app.rank
  · obtain ⟨protoBytes', e⟩ := relabel_flow f protoBytes app
    obtain ⟨i, hi⟩ := h.lookup_of_holds hip
    obtain ⟨a', nodes', e', h'⟩ := h.touch_hit hi app.family now
    rw [if_pos hr, if_pos hr, if_pos hr, e, ok_bind]
    dsimp only
    rw [e', ok_bind]
    exact ⟨protoBytes', a', nodes', rfl, h'⟩
  · rw [if_neg hr, if_neg hr, if_neg hr]
    exact ⟨protoBytes, a, nodes, rfl, h⟩

end Simulates

/-! ### A packet -/

namespace HostList

variable {l : HostList} {row : Option Row} {app : AppProto} {ip j : IpAddr} {now : Instant}

/-- The hosts after a packet that may open its flow, or name it better. -/
def noted (l : HostList) (row : Option Row) (app : AppProto) (ip : IpAddr) (now : Instant) :
    HostList :=
  if adopts row app then (l.touch ip app.family now).2 else l

theorem cap_noted : (l.noted row app ip now).cap = l.cap := by
  unfold noted
  split
  · exact l.cap_perform (.touch ip app.family now)
  · rfl

theorem idAt_noted (hd : (l.hosts.map Host.ip).Nodup) (h : l.Holds j)
    (h' : (l.noted row app ip now).Holds j) : (l.noted row app ip now).idAt j = l.idAt j := by
  unfold noted at h' ⊢
  by_cases ha : adopts row app = true
  · rw [if_pos ha] at h' ⊢
    exact idAt_touch hd ip app.family now h h'
  · rw [if_neg ha]

/-- Where there is room, no host goes. -/
theorem holds_noted (hd : (l.hosts.map Host.ip).Nodup) (hlive : row ≠ none → l.Holds ip)
    (hroom : ¬ l.Holds ip → l.hosts.length < l.cap) :
    (l.noted row app ip now).Holds j ↔ j = ip ∨ l.Holds j := by
  unfold noted
  by_cases ha : adopts row app = true
  · rw [if_pos ha]
    by_cases hip : l.Holds ip
    · rw [holds_touch_hit hd hip]
      exact ⟨.inr, fun ho => ho.elim (fun e => e ▸ hip) id⟩
    · exact holds_touch_new hip (hroom hip) app.family now
  · rw [if_neg ha]
    refine ⟨.inr, fun ho => ho.elim (fun e => e ▸ hlive fun hn => ha ?_) id⟩
    rw [hn]
    rfl

/-- A label that is adopted is remembered of the host. -/
theorem torrents_noted (hd : (l.hosts.map Host.ip).Nodup)
    (hm : l.Holds j → (l.noted row app ip now).Holds j) :
    (l.noted row app ip now).torrents j =
      (l.torrents j || (decide (j = ip) && adopts row app && app.torrenting)) := by
  unfold noted at hm ⊢
  by_cases ha : adopts row app = true
  · rw [if_pos ha] at hm ⊢
    by_cases hj : j = ip
    · subst hj
      simp [torrents_touch_self, ha, AppProto.torrenting]
    · simp [torrents_touch_of_ne hd hj hm, hj]
  · simp [ha]

/-- The host of a flow that is open comes to the front, and so does a new one where the last host
has no flow. -/
theorem front_touch {S : Set IpAddr} (hd : (l.hosts.map Host.ip).Nodup)
    (hf : Recency.Front Host.ip S l.hosts)
    (hroom : ¬ l.Holds ip → l.cap ≤ l.hosts.length → ∃ x ∈ l.hosts, x.ip ∉ S) (fam : UInt16)
    (now : Instant) :
    Recency.Front Host.ip (insert ip S) (l.touch ip fam now).2.hosts := by
  rw [hosts_touch]
  by_cases hip : l.Holds ip
  · exact hf.touch_hit hd hip fun _ => rfl
  · exact hf.touch_new hip rfl (hroom hip)

theorem front_noted {S : Set IpAddr} (hd : (l.hosts.map Host.ip).Nodup)
    (hf : Recency.Front Host.ip S l.hosts) (hlive : row ≠ none → ip ∈ S)
    (hroom : row = none → l.cap ≤ l.hosts.length → ∃ x ∈ l.hosts, x.ip ∉ S) :
    Recency.Front Host.ip (insert ip S) (l.noted row app ip now).hosts := by
  unfold noted
  cases row with
  | none => exact front_touch hd hf (fun _ => hroom rfl) app.family now
  | some r =>
      have hip := hlive (by simp)
      split
      · exact front_touch hd hf (fun hn => absurd (hf.mem hip) hn) app.family now
      · rwa [Set.insert_eq_of_mem hip]

end HostList

namespace Inner

variable {s s' : Inner} {nodes nodes' : List (UInt32 × Host)} {l l' : HostList} {key : FlowKey}

theorem row_insert (flows : Table FlowKey Flow) {f : Flow} (h : s.flows = flows.insert key f)
    (k : FlowKey) : s.row k = if k = key then some f.row else (flows.lookup k).map Flow.row := by
  rw [row, h, Finmap.lookup_insert_eq]
  split <;> rfl

theorem row_eq_none : s.row key = none ↔ s.flows.lookup key = none := by simp [row]

theorem counted_row (f : Flow) (dir : Direction) (len : ℕ) (now : Instant) :
    (counted f dir len now).row = ⟨f.app, f.row.bytes + len, now⟩ := by
  cases dir
  · simp [counted, Flow.row, Nat.add_right_comm]
  · simp [counted, Flow.row, Nat.add_assoc]

/-- What a packet makes of the live table and of the hosts. -/
structure Heard (s s' : Inner) (key : FlowKey) (row : Row) : Prop where
  flows : ∃ f, s'.flows = s.flows.insert key f
  row : ∀ k, s'.row k = if k = key then some row else s.row k

/-- The rest of the call, once the flow's entry is made and its label upgraded. -/
theorem recordRow_of_entry {dir : Direction} {p : ParsedPacket} {now : Instant} {f : Flow}
    {key : FlowKey} {peers peers' : PeerArena} {own : Table FlowKey Instant} {protoBytes : Counters String}
    {l' : HostList} {nodes' : List (UInt32 × Host)}
    (hkey : keyOf dir p = key) (he : s.entry key p.app now = .ok (f, peers, own))
    (hu : upgrade saturating f s.protoBytes peers key.remoteIp p.app now =
      .ok ({ f with app := adopted (s.row key) p.app }, protoBytes, peers'))
    (h' : Simulates peers' nodes' l') (hb : f.up + f.down = ((s.row key).map Row.bytes).getD 0) :
    ∃ s', s.recordRow saturating dir p now = .ok s' ∧ s'.peers = peers' ∧
      Heard s s' key (heard (s.row key) (l'.torrents key.remoteIp) p.app p.len now) := by
  obtain ⟨protoBytes', hc⟩ := h'.correlate_spec { f with app := adopted (s.row key) p.app }
    protoBytes key.remoteIp
  have e : s.recordRow saturating dir p now = .ok { s with
      flows := s.flows.insert key (counted
        { f with app := correlated (l'.torrents key.remoteIp) (adopted (s.row key) p.app) }
          dir p.len now)
      protoBytes := protoBytes'.add
        (correlated (l'.torrents key.remoteIp) (adopted (s.row key) p.app)).label p.len
      peers := peers'
      own } := by
    rw [recordRow]
    dsimp only
    rw [hkey, he, ok_bind]
    dsimp only
    rw [hu, ok_bind]
    dsimp only
    rw [hc, ok_bind]
    rfl
  refine ⟨_, e, rfl, ⟨_, rfl⟩, fun k => ?_⟩
  rw [row_insert s.flows rfl, counted_row]
  split
  · rw [heard, ← hb]
    rfl
  · rfl

theorem recordRow_heard (h : Simulates s.peers nodes l) (dir : Direction) (p : ParsedPacket)
    (now : Instant) (hlive : s.row (keyOf dir p) ≠ none → l.Holds (keyOf dir p).remoteIp)
    (hnew : s.row (keyOf dir p) = none → nodes.length < 4294967295) :
    ∃ s' nodes', s.recordRow saturating dir p now = .ok s' ∧
      Simulates s'.peers nodes' (l.noted (s.row (keyOf dir p)) p.app (keyOf dir p).remoteIp now) ∧
      Heard s s' (keyOf dir p) (heard (s.row (keyOf dir p))
        ((l.noted (s.row (keyOf dir p)) p.app (keyOf dir p).remoteIp now).torrents
          (keyOf dir p).remoteIp) p.app p.len now) := by
  obtain ⟨key, hkey⟩ : ∃ key, keyOf dir p = key := ⟨_, rfl⟩
  rw [hkey] at hlive hnew ⊢
  cases hr : s.flows.lookup key with
  | none =>
      have hrow : s.row key = none := row_eq_none.mpr hr
      obtain ⟨peers, nodes', e, h'⟩ := h.touch (hnew hrow) key.remoteIp p.app.family now
      have hnoted : l.noted (s.row key) p.app key.remoteIp now =
          (l.touch key.remoteIp p.app.family now).2 := by simp [HostList.noted, adopts, hrow]
      have hentry : ∃ f own, s.entry key p.app now = .ok (f, peers, own) ∧ f.app = p.app ∧
          f.up + f.down = 0 := by
        rw [entry, hr]
        dsimp only
        rw [e, ok_bind]
        exact ⟨_, _, rfl, rfl, rfl⟩
      obtain ⟨f, own, he, happ, hb⟩ := hentry
      -- a row that has just been opened has nothing to be upgraded to
      have hu : upgrade saturating f s.protoBytes peers key.remoteIp p.app now =
          .ok ({ f with app := adopted (s.row key) p.app }, s.protoBytes, peers) := by
        simp [upgrade, adopted, hrow, ← happ]
      obtain ⟨s', e', rfl, hheard⟩ := recordRow_of_entry hkey he hu h' (by simp [hrow, hb])
      rw [hnoted]
      exact ⟨s', nodes', e', h', hheard⟩
  | some f =>
      have hrow : s.row key = some f.row := by simp [row, hr]
      obtain ⟨protoBytes, peers, nodes', e, h'⟩ := h.upgrade_spec
        (hlive (by simp [hrow])) f s.protoBytes p.app now
      have hnoted : l.noted (s.row key) p.app key.remoteIp now =
          if f.app.rank < p.app.rank then (l.touch key.remoteIp p.app.family now).2 else l := by
        simp [HostList.noted, adopts, hrow, Flow.row]
      have he : s.entry key p.app now = .ok (f, s.peers, s.own) := by
        rw [entry, hr]
        rfl
      obtain ⟨s', e', rfl, hheard⟩ := recordRow_of_entry hkey he (by rw [hrow]; exact e) h'
        (by rw [hrow]; rfl)
      rw [hnoted]
      exact ⟨s', nodes', e', h', hheard⟩

end Inner

/-! ### A tick -/

/-- The same hosts, and the same known of each; their order may differ. -/
structure SameKnown (l l' : HostList) : Prop where
  cap : l'.cap = l.cap
  holds : ∀ j, l'.Holds j ↔ l.Holds j
  idAt : ∀ j, l'.idAt j = l.idAt j
  torrents : ∀ j, l'.torrents j = l.torrents j

namespace SameKnown

variable {l l₁ l' : HostList} {ip : IpAddr}

theorem refl (l : HostList) : SameKnown l l := ⟨rfl, fun _ => .rfl, fun _ => rfl, fun _ => rfl⟩

theorem trans (h : SameKnown l l₁) (h' : SameKnown l₁ l') : SameKnown l l' :=
  ⟨h'.cap.trans h.cap, fun j => (h'.holds j).trans (h.holds j),
    fun j => (h'.idAt j).trans (h.idAt j), fun j => (h'.torrents j).trans (h.torrents j)⟩

/-- A host seen again, under a label that says nothing new of it. -/
theorem touch (hd : (l.hosts.map Host.ip).Nodup) (hip : l.Holds ip) {app : AppProto}
    (ht : app.torrenting = true → l.torrents ip = true) (now : Instant) :
    SameKnown l (l.touch ip app.family now).2 where
  cap := l.cap_perform (.touch ip app.family now)
  holds j := HostList.holds_touch_hit hd hip app.family now
  idAt j := by
    by_cases hj : l.Holds j
    · exact HostList.idAt_touch hd ip app.family now hj
        ((HostList.holds_touch_hit hd hip app.family now).mpr hj)
    · have hne : j ≠ ip := fun e => hj (e ▸ hip)
      rw [HostList.idAt, HostList.find_touch_of_ne hd hne fun h => absurd h hj, HostList.idAt]
  torrents j := by
    by_cases hj : j = ip
    · subst hj
      rw [HostList.torrents_touch_self, Bool.or_eq_left_iff_imp]
      exact ht
    · exact HostList.torrents_touch_of_ne hd hj fun h =>
        (HostList.holds_touch_hit hd hip app.family now).mpr h

theorem setAsn (l : HostList) (ip : IpAddr) (info : AsnInfo) : SameKnown l (l.setAsn ip info) :=
  ⟨rfl, fun j => (l.setAsn_known ip j info).1, fun j => (l.setAsn_known ip j info).2.1,
    fun j => (l.setAsn_known ip j info).2.2⟩

end SameKnown

def Row.isIdle (now : Instant) (r : Row) : Bool :=
  FLOW_IDLE_EVICT ≤ durationSince now r.lastSeen

theorem correlated_correlated (t : Bool) (r : Row) :
    (r.correlated t).correlated t = r.correlated t := by
  unfold Row.correlated correlated
  split <;> simp_all

namespace Inner

variable {s s' : Inner} {nodes nodes' : List (UInt32 × Host)} {l l' : HostList} {key : FlowKey}

/-- The sweep takes the flows it is given, and nothing else of what is tracked. -/
theorem sweep_rows (h : Simulates s.peers nodes l) (ks : List FlowKey) :
    ∃ s' records, sweep ks s = .ok (s', records) ∧ s'.peers = s.peers ∧
      ∀ k, s'.flows.lookup k = if k ∈ ks then none else s.flows.lookup k := by
  induction ks generalizing s with
  | nil => exact ⟨s, [], rfl, rfl, by simp⟩
  | cons k ks ih =>
      have hone : ∃ s₁ records₁, s.archiveFlow k = .ok (s₁, records₁) ∧ s₁.peers = s.peers ∧
          ∀ j, s₁.flows.lookup j = if j = k then none else s.flows.lookup j := by
        unfold archiveFlow
        cases hk : s.flows.lookup k with
        | none =>
            refine ⟨s, [], rfl, rfl, fun j => ?_⟩
            split
            · next e => rw [e, hk]
            · rfl
        | some f =>
            obtain ⟨e, he, -⟩ := h.get k.remoteIp
            dsimp only [recordOf]
            rw [he]
            exact ⟨_, _, rfl, rfl, Finmap.lookup_erase_eq _ _⟩
      obtain ⟨s₁, records₁, e₁, hp₁, hl₁⟩ := hone
      obtain ⟨s', records, e', hp', hl'⟩ := ih (hp₁ ▸ h)
      refine ⟨s', records₁ ++ records, by rw [sweep, e₁, ok_bind]; dsimp only; rw [e', ok_bind]; rfl,
        hp'.trans hp₁, fun j => ?_⟩
      rw [hl', hl₁]
      by_cases hj : j = k <;> by_cases hm : j ∈ ks <;> simp [hj, hm]

/-- The first walk of a tick takes the idle flows. -/
theorem sweep_idle (h : Simulates s.peers nodes l) {order : List FlowKey}
    (ho : Enumerates order s.flows) (now : Instant) :
    ∃ s' records, sweep ((s.advance now).idleKeys now order) (s.advance now) = .ok (s', records) ∧
      s'.peers = s.peers ∧ s'.flows = s.flows.retain fun _ f => !isIdle now f := by
  obtain ⟨s', records, e, hp, hl⟩ := sweep_rows (s := s.advance now) h
    ((s.advance now).idleKeys now order)
  refine ⟨s', records, e, hp, Finmap.ext_lookup fun k => ?_⟩
  have hidle : k ∈ (s.advance now).idleKeys now order ↔
      (s.flows.lookup k).any (isIdle now) = true := by
    simp only [idleKeys, List.mem_filter, ho.2]
    refine ⟨fun hm => hm.2, fun hm => ⟨fun hn => ?_, hm⟩⟩
    simp [hn] at hm
  rw [hl, Finmap.lookup_retain, show (s.advance now).flows = s.flows from rfl]
  cases hk : s.flows.lookup k with
  | none => simp
  | some f => cases hi : isIdle now f <;> simp [hidle, hk, hi, Option.filter]

/-- A row of the second walk. -/
theorem refreshFlow_row (h : Simulates s.peers nodes l) {r : Row} (hk : s.row key = some r)
    (hip : l.Holds key.remoteIp) (ht : r.app.torrenting = true → l.torrents key.remoteIp = true)
    (now : Instant) (dt : ℕ) :
    ∃ s' nodes', s.refreshFlow saturating now dt key = .ok s' ∧
      Simulates s'.peers nodes' (l.touch key.remoteIp r.app.family now).2 ∧
      ∀ k, s'.row k =
        if k = key then some (r.correlated (l.torrents key.remoteIp)) else s.row k := by
  obtain ⟨f, hf, rfl⟩ := Option.map_eq_some_iff.mp hk
  obtain ⟨peers, nodes', e, h'⟩ := h.refresh key.remoteIp f.app.family now
  rw [HostList.refresh_of_holds hip] at h'
  have hsame := (SameKnown.touch h.nodup hip ht now).torrents key.remoteIp
  obtain ⟨protoBytes, hc⟩ := h'.correlate_spec
    { f with rate := ⟨f.up + f.down - f.lastTotal, dt⟩, lastTotal := f.up + f.down }
    s.protoBytes key.remoteIp
  rw [show f.row.app.family = f.app.family from rfl] at hsame ⊢
  rw [hsame] at hc
  have e' : s.refreshFlow saturating now dt key = .ok { s with
      flows := s.flows.insert key { f with
        app := correlated (l.torrents key.remoteIp) f.app
        rate := ⟨f.up + f.down - f.lastTotal, dt⟩
        lastTotal := f.up + f.down }
      protoBytes
      peers } := by
    unfold refreshFlow
    rw [hf]
    dsimp only
    rw [e, ok_bind, hc]
    rfl
  refine ⟨_, nodes', e', h', fun k => ?_⟩
  rw [row_insert s.flows rfl]
  rfl

/-- The second walk leaves the hosts of the flows it visited in front, and what is known of every
host as it was. -/
theorem refreshAll_rows {T : Set IpAddr} (h : Simulates s.peers nodes l)
    (hf : Recency.Front Host.ip T l.hosts) (hlive : ∀ k, s.row k ≠ none → l.Holds k.remoteIp)
    (hinf : ∀ k r, s.row k = some r → r.app.torrenting = true → l.torrents k.remoteIp = true)
    (now : Instant) (dt : ℕ) (ks : List FlowKey) :
    ∃ s' nodes' l', refreshAll saturating now dt ks s = .ok s' ∧ Simulates s'.peers nodes' l' ∧
      SameKnown l l' ∧
      Recency.Front Host.ip (T ∪ {ip | ∃ k ∈ ks, s.row k ≠ none ∧ k.remoteIp = ip}) l'.hosts ∧
      ∀ k, s'.row k =
        if k ∈ ks then (s.row k).map (Row.correlated (l.torrents k.remoteIp)) else s.row k := by
  induction ks generalizing s nodes l T with
  | nil => exact ⟨s, nodes, l, rfl, h, .refl l, by simpa using hf, by simp⟩
  | cons key ks ih =>
      cases hk : s.row key with
      | none =>
          have e : s.refreshFlow saturating now dt key = .ok s := by
            rw [refreshFlow, row_eq_none.mp hk]
            rfl
          obtain ⟨s', nodes', l', e', h', hsame, hfront, hrow⟩ := ih h hf hlive hinf
          refine ⟨s', nodes', l', by rw [refreshAll, e, ok_bind, e'], h', hsame, ?_, fun k => ?_⟩
          · simpa [hk] using hfront
          · rw [hrow]
            by_cases he : k = key <;> simp [he, hk]
      | some r =>
          have hip := hlive key (by simp [hk])
          obtain ⟨s₁, nodes₁, e₁, h₁, hrow₁⟩ := refreshFlow_row h hk hip (hinf key r hk) now dt
          have hsame₁ := SameKnown.touch h.nodup hip (hinf key r hk) now
          have hfront₁ := HostList.front_touch h.nodup hf
            (fun hn => absurd hip hn) r.app.family now
          -- a label that is correlated says no more of its host
          have hsome : ∀ k, s₁.row k ≠ none ↔ s.row k ≠ none := by
            intro k
            rw [hrow₁]
            by_cases he : k = key <;> simp [he, hk]
          have hinf₁ : ∀ k r₁, s₁.row k = some r₁ → r₁.app.torrenting = true →
              (l.touch key.remoteIp r.app.family now).2.torrents k.remoteIp = true := by
            intro k r₁ hr₁ ht
            rw [hsame₁.torrents]
            rw [hrow₁] at hr₁
            by_cases he : k = key
            · rw [if_pos he, Option.some.injEq] at hr₁
              rw [← hr₁, Row.correlated, torrenting_correlated] at ht
              exact he ▸ hinf key r hk ht
            · rw [if_neg he] at hr₁
              exact hinf k r₁ hr₁ ht
          obtain ⟨s', nodes', l', e', h', hsame, hfront, hrow⟩ := ih h₁ hfront₁
            (fun k hn => (hsame₁.holds _).mpr (hlive k ((hsome k).mp hn))) hinf₁
          refine ⟨s', nodes', l', by rw [refreshAll, e₁, ok_bind, e'], h', hsame₁.trans hsame, ?_,
            fun k => ?_⟩
          · convert hfront using 1
            ext ip
            simp only [Set.mem_union, Set.mem_insert_iff, Set.mem_ofPred_eq, List.mem_cons, hsome]
            constructor
            · rintro (hT | ⟨k, rfl | hm, hn, rfl⟩)
              · exact .inl (.inr hT)
              · exact .inl (.inl rfl)
              · exact .inr ⟨k, hm, hn, rfl⟩
            · rintro ((rfl | hT) | ⟨k, hm, hn, rfl⟩)
              · exact .inr ⟨key, .inl rfl, by simp [hk], rfl⟩
              · exact .inl hT
              · exact .inr ⟨k, .inr hm, hn, rfl⟩
          · rw [hrow, hrow₁, hsame₁.torrents]
            by_cases he : k = key <;> by_cases hm : k ∈ ks <;>
              simp [he, hm, hk, correlated_correlated]

/-! ### The other calls -/

/-- A row that changes in its status or its origin. -/
theorem row_insert_eq {f f' : Flow} (hf : s.flows.lookup key = some f) (hr : f'.row = f.row)
    (k : FlowKey) : row { s with flows := s.flows.insert key f' } k = s.row k := by
  rw [row_insert s.flows rfl]
  split
  · next e => rw [e, row, hf, hr]; rfl
  · rfl

theorem noteFlow_rows (s : Inner) (tcp : Bool) (remoteIp : Ipv4Addr)
    (remotePort localPort : UInt16) (status : FlowStatus) :
    (s.noteFlow tcp remoteIp remotePort localPort status).peers = s.peers ∧
      ∀ k, (s.noteFlow tcp remoteIp remotePort localPort status).row k = s.row k := by
  unfold noteFlow
  dsimp only
  split
  · next f hf => exact ⟨rfl, row_insert_eq hf rfl⟩
  · exact ⟨rfl, fun _ => rfl⟩

theorem markOwn_rows (s : Inner) (remoteIp : IpAddr) (remotePort localPort : UInt16) (tcp : Bool)
    (now : Instant) :
    (s.markOwn remoteIp remotePort localPort tcp now).peers = s.peers ∧
      ∀ k, (s.markOwn remoteIp remotePort localPort tcp now).row k = s.row k := by
  unfold markOwn
  dsimp only
  split
  · next f hf => exact ⟨rfl, row_insert_eq hf rfl⟩
  · exact ⟨rfl, fun _ => rfl⟩

end Inner

end Tunnel.Inspect
