import Tunnel.Inspect.Conservation
import Tunnel.Inspect.Rows

/-!
# Inspect — Live hosts stay

A host is evicted when it is the least recently seen, and packets do not touch the arena: only a flow
that opens or gets a better label does, and every tick.  What keeps the hosts of live flows resident
is that they always come first: a flow that opens puts its host at the front, and a tick moves the
hosts of all the flows it leaves there.

* `Tracked`: the arena stands for a list of hosts whose front is the hosts of the live flows, and what
  the labels of the live flows say of their hosts is remembered.
* `Tracked.recordRow`, `Tracked.tick`: a packet and a tick.  `Tracked.apply`: any event.
* `live_hosts_kept`: the law over whole runs.
-/

namespace Tunnel.Inspect
open Support

namespace Inner

variable {s : Inner} {key : FlowKey}

/-- The hosts of the live flows. -/
def liveHosts (s : Inner) : Set IpAddr := {ip | ∃ k, s.row k ≠ none ∧ k.remoteIp = ip}

theorem mem_liveHosts {r : Row} (h : s.row key = some r) : key.remoteIp ∈ s.liveHosts :=
  ⟨key, by simp [h], rfl⟩

theorem Heard.liveHosts {s' : Inner} {row : Row} (h : Heard s s' key row) :
    s'.liveHosts = insert key.remoteIp s.liveHosts := by
  ext ip
  simp only [Inner.liveHosts, Set.mem_insert_iff, Set.mem_ofPred_eq, h.row]
  constructor
  · rintro ⟨k, hk, rfl⟩
    by_cases he : k = key
    · exact .inl (by rw [he])
    · rw [if_neg he] at hk
      exact .inr ⟨k, hk, rfl⟩
  · rintro (rfl | ⟨k, hk, rfl⟩)
    · exact ⟨key, by simp, rfl⟩
    · refine ⟨k, ?_, rfl⟩
      split
      · simp
      · exact hk

end Inner

/-- The arena stands for hosts of which the first are those of the live flows, and it remembers what
the labels of these say of them. -/
structure Tracked (s : Inner) (nodes : List (UInt32 × Host)) (l : HostList) : Prop where
  simulates : Simulates s.peers nodes l
  front : Recency.Front Host.ip s.liveHosts l.hosts
  room : MAX_LIVE_FLOWS ≤ l.cap
  informed : ∀ k r, s.row k = some r → r.app.torrenting = true → l.torrents k.remoteIp = true

namespace Tracked

variable {s s' : Inner} {nodes nodes' : List (UInt32 × Host)} {l l' : HostList} {key : FlowKey}

theorem new {arena : ℕ} (h : MAX_LIVE_FLOWS ≤ arena) (now wallBase : Instant) :
    Tracked (.new now wallBase arena) [] (.new arena) where
  simulates := .new arena
  front := by
    have he : (Inner.new now wallBase arena).liveHosts = ∅ := by
      ext ip
      simp [Inner.liveHosts, Inner.row, Inner.new]
    rw [he]
    exact Recency.front_empty _
  room := Nat.le_trans h (Nat.le_max_left _ _)
  informed k r h := by simp [Inner.row, Inner.new] at h

theorem holds (h : Tracked s nodes l) {k : FlowKey} (hk : s.row k ≠ none) : l.Holds k.remoteIp :=
  h.front.mem ⟨k, hk, rfl⟩

theorem length_lt (h : Tracked s nodes l) (hcap : l.cap < 4294967295) :
    nodes.length < 4294967295 := by
  have hle := h.simulates.le_cap
  have hc := h.simulates.cap
  omega

/-- What is tracked depends on the rows and the hosts. -/
theorem congr (h : Tracked s nodes l) (hp : s'.peers = s.peers) (hr : ∀ k, s'.row k = s.row k) :
    Tracked s' nodes l where
  simulates := hp ▸ h.simulates
  front := by
    have he : s'.liveHosts = s.liveHosts := by
      ext ip
      simp [Inner.liveHosts, hr]
    exact he ▸ h.front
  room := h.room
  informed k r hk := h.informed k r (hr k ▸ hk)

/-- While fewer flows are live than the arena has slots, a full arena holds a host without one. -/
theorem exists_idle_host (h : Tracked s nodes l) (hs : s.flows.size < l.cap)
    (hfull : l.cap ≤ l.hosts.length) : ∃ x ∈ l.hosts, x.ip ∉ s.liveHosts := by
  by_contra hn
  push Not at hn
  have hsub : (l.hosts.map Host.ip).toFinset ⊆ s.flows.keys.image FlowKey.remoteIp := by
    intro ip hip
    obtain ⟨x, hx, rfl⟩ := List.mem_map.mp (List.mem_toFinset.mp hip)
    obtain ⟨k, hk, he⟩ := hn x hx
    rw [ne_eq, Inner.row_eq_none] at hk
    exact Finset.mem_image.mpr ⟨k, Finmap.mem_keys.mpr (Finmap.lookup_isSome.mp
      (Option.isSome_iff_ne_none.mpr hk)), he⟩
  have hcard := (Finset.card_le_card hsub).trans Finset.card_image_le
  rw [List.toFinset_card_of_nodup h.simulates.nodup, List.length_map, ← Finmap.size_eq_card_keys]
    at hcard
  omega

/-- A packet that is given a row. -/
theorem recordRow (h : Tracked s nodes l) {dir : Direction} {p : ParsedPacket} (now : Instant)
    (hd : ¬ s.declines dir p)
    (hlen : s.row (Inner.keyOf dir p) = none → nodes.length < 4294967295) :
    ∃ s' nodes', s.recordRow saturating dir p now = .ok s' ∧
      Tracked s' nodes' (l.noted (s.row (Inner.keyOf dir p)) p.app
        (Inner.keyOf dir p).remoteIp now) ∧
      Inner.Heard s s' (Inner.keyOf dir p) (heard (s.row (Inner.keyOf dir p))
        ((l.noted (s.row (Inner.keyOf dir p)) p.app (Inner.keyOf dir p).remoteIp now).torrents
          (Inner.keyOf dir p).remoteIp) p.app p.len now) := by
  obtain ⟨s', nodes', e, hsim, hheard⟩ :=
    Inner.recordRow_heard h.simulates dir p now h.holds hlen
  refine ⟨s', nodes', e, ?_, hheard⟩
  set key := Inner.keyOf dir p with hkey
  have hnodup := h.simulates.nodup
  have hfront : Recency.Front Host.ip (insert key.remoteIp s.liveHosts)
      (l.noted (s.row key) p.app key.remoteIp now).hosts := by
    refine HostList.front_noted hnodup h.front (fun hn => ⟨key, hn, rfl⟩) fun hn hfull => ?_
    refine h.exists_idle_host ?_ hfull
    have hsize : s.flows.size < MAX_LIVE_FLOWS := by
      by_contra hge
      exact hd ⟨Nat.le_of_not_lt hge, Inner.row_eq_none.mp hn⟩
    exact Nat.lt_of_lt_of_le hsize h.room
  have hlive : s'.liveHosts = insert key.remoteIp s.liveHosts := hheard.liveHosts
  refine ⟨hsim, hlive ▸ hfront, by rw [HostList.cap_noted]; exact h.room,
    fun k r hk ht => ?_⟩
  have hstay : l.Holds k.remoteIp →
      (l.noted (s.row key) p.app key.remoteIp now).Holds k.remoteIp := fun _ =>
    hfront.mem (hlive ▸ Inner.mem_liveHosts hk)
  rw [HostList.torrents_noted hnodup hstay]
  rw [hheard.row] at hk
  -- Only a family that the packet adopts can be news of its host.
  by_cases he : k = key
  · rw [if_pos he, Option.some.injEq] at hk
    rw [← hk, heard, torrenting_correlated] at ht
    cases hr : s.row key with
    | none =>
        rw [hr] at ht
        simp [he, adopts, show p.app.torrenting = true from ht]
    | some r =>
        rw [hr, adopted] at ht
        split at ht
        · next hrank => simp [he, adopts, hrank, ht]
        · simp [he, h.informed key r hr ht]
  · rw [if_neg he] at hk
    simp [h.informed k r hk ht]

/-- The same, counters and all. -/
theorem recordOpen (h : Tracked s nodes l) {dir : Direction} {p : ParsedPacket} (now : Instant)
    (hd : ¬ s.declines dir p)
    (hlen : s.row (Inner.keyOf dir p) = none → nodes.length < 4294967295) :
    ∃ s' nodes', s.recordParsed saturating dir p now = .ok s' ∧
      Tracked s' nodes' (l.noted (s.row (Inner.keyOf dir p)) p.app
        (Inner.keyOf dir p).remoteIp now) ∧
      Inner.Heard s s' (Inner.keyOf dir p) (heard (s.row (Inner.keyOf dir p))
        ((l.noted (s.row (Inner.keyOf dir p)) p.app (Inner.keyOf dir p).remoteIp now).torrents
          (Inner.keyOf dir p).remoteIp) p.app p.len now) := by
  have hrow : ∀ k, (s.count dir p.len).row k = s.row k := by cases dir <;> exact fun _ => rfl
  have hflows : (s.count dir p.len).flows = s.flows := by cases dir <;> rfl
  have hd' : ¬ (s.count dir p.len).declines dir p := by cases dir <;> exact hd
  have h₁ : Tracked (s.count dir p.len) nodes l := h.congr (by cases dir <;> rfl) hrow
  obtain ⟨s', nodes', e, h', hheard⟩ := h₁.recordRow now hd' (by rw [hrow]; exact hlen)
  rw [hrow] at h' hheard
  refine ⟨s', nodes', (if_neg hd').trans e, h', hflows ▸ hheard.flows, fun k => ?_⟩
  rw [hheard.row, hrow]

/-- The idle flows are gone after a tick, and the others are named by what is known of their
hosts. -/
theorem tick (h : Tracked s nodes l) {now : Instant} {order visit : List FlowKey}
    (ho : Ordered s (.tick now order visit)) :
    ∃ s' records nodes' l', s.tick saturating now order visit = .ok (s', records) ∧
      Tracked s' nodes' l' ∧ SameKnown l l' ∧ ∀ k, s'.row k =
        ((s.row k).filter fun r => !r.isIdle now).map (Row.correlated (l.torrents k.remoteIp)) := by
  obtain ⟨horder, -, hvisit⟩ := ho
  obtain ⟨s₁, records, e₁, hp₁, hf₁⟩ := Inner.sweep_idle h.simulates horder now
  rw [← hf₁] at hvisit
  have hrow₁ : ∀ k, s₁.row k = (s.row k).filter fun r => !r.isIdle now := by
    intro k
    rw [Inner.row, hf₁, Finmap.lookup_retain, Inner.row, Option.filter_map]
    rfl
  have hsome : ∀ k, k ∈ visit ↔ s₁.row k ≠ none := fun k => by
    rw [hvisit, ne_eq, ne_eq, Inner.row_eq_none]
  have hsub : ∀ k r, s₁.row k = some r → s.row k = some r := by
    intro k r hk
    rw [hrow₁] at hk
    exact (Option.filter_eq_some_iff.mp hk).1
  have hsim : Simulates s₁.peers nodes l := hp₁ ▸ h.simulates
  obtain ⟨s', nodes', l', e', h', hsame, hfront, hrow⟩ := Inner.refreshAll_rows
    (s := { s₁ with own := s₁.own.retain fun _ t => durationSince now t < OWN_MARK_TTL })
    (T := ∅) hsim (Recency.front_empty _)
    (fun k hk => by
      obtain ⟨r, hr⟩ := Option.ne_none_iff_exists'.mp hk
      exact h.holds (by simp [hsub k r hr]))
    (fun k r hr => h.informed k r (hsub k r hr)) now (max (durationSince now s.lastTick) 1000000)
    visit
  have hrow' : ∀ k, s'.row k = (s₁.row k).map (Row.correlated (l.torrents k.remoteIp)) := by
    intro k
    rw [hrow]
    split
    · rfl
    · next hk =>
        have hnone := not_not.mp ((hsome k).not.mp hk)
        change s₁.row k = _
        rw [hnone]
        rfl
  refine ⟨s', records, nodes', l', ?_, ⟨h', ?_, hsame.cap ▸ h.room, ?_⟩, hsame, ?_⟩
  · unfold Inner.tick
    dsimp only
    rw [e₁, ok_bind]
    dsimp only
    rw [e', ok_bind]
    rfl
  · have hlive : s'.liveHosts =
        ∅ ∪ {ip | ∃ k ∈ visit, s₁.row k ≠ none ∧ k.remoteIp = ip} := by
      ext ip
      simp only [Inner.liveHosts, hrow', Set.empty_union, Set.mem_ofPred_eq, ne_eq,
        Option.map_eq_none_iff, hsome]
      constructor
      · rintro ⟨k, hk, e⟩
        exact ⟨k, hk, hk, e⟩
      · rintro ⟨k, hk, -, e⟩
        exact ⟨k, hk, e⟩
    rw [hlive]
    exact hfront
  · intro k r hk ht
    rw [hrow', Option.map_eq_some_iff] at hk
    obtain ⟨r₁, hr₁, rfl⟩ := hk
    rw [Row.correlated, torrenting_correlated] at ht
    rw [hsame.torrents]
    exact h.informed k r₁ (hsub k r₁ hr₁) ht
  · intro k
    rw [hrow', hrow₁]

/-! ### Any event -/

/-- The flows that stay open keep the ids of their hosts, and no label worse than theirs. -/
structure Follows (s s' : Inner) (l l' : HostList) : Prop where
  cap : l'.cap = l.cap
  idAt : ∀ k, s.row k ≠ none → s'.row k ≠ none → l'.idAt k.remoteIp = l.idAt k.remoteIp
  rank : ∀ k r r', s.row k = some r → s'.row k = some r' → r.app.rank ≤ r'.app.rank

theorem Follows.of_row (hr : ∀ k, s'.row k = s.row k) (hl : SameKnown l l') : Follows s s' l l' where
  cap := hl.cap
  idAt _ _ _ := hl.idAt _
  rank k r r' h h' := by
    rw [hr, h, Option.some.injEq] at h'
    rw [h']

theorem recordParsed (h : Tracked s nodes l) (hlen : nodes.length < 4294967295) (dir : Direction)
    (p : ParsedPacket) (now : Instant) :
    ∃ s' nodes' l', s.recordParsed saturating dir p now = .ok s' ∧ Tracked s' nodes' l' ∧
      Follows s s' l l' := by
  by_cases hd : s.declines dir p
  · have hrow : ∀ k, (s.count dir p.len).row k = s.row k := by cases dir <;> exact fun _ => rfl
    have hd' : (s.count dir p.len).declines dir p := by cases dir <;> exact hd
    exact ⟨_, nodes, l, if_pos hd', h.congr (by cases dir <;> rfl) hrow, .of_row hrow (.refl l)⟩
  · obtain ⟨s', nodes', e, h', hheard⟩ := h.recordOpen now hd fun _ => hlen
    refine ⟨s', nodes', _, e, h', HostList.cap_noted, fun k hk hk' => ?_, fun k r r' hk hk' => ?_⟩
    · exact HostList.idAt_noted h.simulates.nodup (h.holds hk) (h'.holds hk')
    · rw [hheard.row] at hk'
      split at hk'
      · next he =>
          rw [← he, hk] at hk'
          rw [← Option.some.inj hk']
          exact rank_le_heard ..
      · rw [hk] at hk'
        rw [Option.some.inj hk']

/-- A host whose network becomes known stays where it is. -/
theorem setAsn (h : Tracked s nodes l) (ip : IpAddr) (info : AsnInfo) :
    ∃ peers nodes', s.peers.setAsn ip info = .ok peers ∧
      Tracked { s with peers } nodes' (l.setAsn ip info) := by
  obtain ⟨peers, nodes', e, h'⟩ := h.simulates.setAsn ip info
  refine ⟨peers, nodes', e, h', ?_, h.room, fun k r hk ht => ?_⟩
  · exact h.front.update fun _ => rfl
  · rw [(SameKnown.setAsn l ip info).torrents]
    exact h.informed k r hk ht

theorem fillCached (h : Tracked s nodes l) (cached : List (IpAddr × Option AsnInfo)) :
    ∃ peers nodes' l', Inner.fillCached cached s.peers = .ok peers ∧
      Tracked { s with peers } nodes' l' ∧ SameKnown l l' := by
  induction cached generalizing s nodes l with
  | nil => exact ⟨s.peers, nodes, l, rfl, h, .refl l⟩
  | cons c cached ih =>
      obtain ⟨ip, info | info⟩ := c
      · exact ih h
      · obtain ⟨peers₁, nodes₁, e₁, h₁⟩ := h.setAsn ip info
        obtain ⟨peers, nodes', l', e, h', hsame⟩ := ih h₁
        exact ⟨peers, nodes', l', by rw [Inner.fillCached, e₁, ok_bind, e], h',
          (SameKnown.setAsn l ip info).trans hsame⟩

/-- No event panics while there are slots, and each keeps what is tracked. -/
theorem apply [Entropy] (h : Tracked s nodes l) (hlen : nodes.length < 4294967295)
    {e : MonitorEvent} (ho : Ordered s e) :
    ∃ s' nodes' l', s.apply saturating e = .ok s' ∧ Tracked s' nodes' l' ∧ Follows s s' l l' := by
  cases e with
  | record dir pkt now =>
      obtain ⟨parsed, hp⟩ := returns_parse pkt
      dsimp only [Inner.apply, Inner.record]
      rw [hp, ok_bind]
      cases parsed with
      | none => exact ⟨s, nodes, l, rfl, h, .of_row (fun _ => rfl) (.refl l)⟩
      | some p => exact h.recordParsed hlen dir p now
  | tick now order visit =>
      obtain ⟨s', records, nodes', l', e, h', hsame, hrow⟩ := h.tick ho
      refine ⟨s', nodes', l', by rw [Inner.apply, e]; rfl, h', hsame.cap,
        fun k _ _ => hsame.idAt _, ?_⟩
      intro k r r' hk hk'
      rw [hrow, hk, Option.map_eq_some_iff] at hk'
      obtain ⟨r₁, hr₁, rfl⟩ := hk'
      rw [← Option.some.inj (Option.filter_eq_some_iff.mp hr₁).1, Row.correlated, rank_correlated]
  | noteFlow tcp remoteIp remotePort localPort status =>
      obtain ⟨hp, hr⟩ := s.noteFlow_rows tcp remoteIp remotePort localPort status
      exact ⟨_, nodes, l, rfl, h.congr hp hr, .of_row hr (.refl l)⟩
  | markOwn remoteIp remotePort localPort tcp now =>
      obtain ⟨hp, hr⟩ := s.markOwn_rows remoteIp remotePort localPort tcp now
      exact ⟨_, nodes, l, rfl, h.congr hp hr, .of_row hr (.refl l)⟩
  | enrichCandidate =>
      obtain ⟨es, hes, -⟩ := h.simulates.iterMru
      obtain ⟨peers, nodes', l', e, h', hsame⟩ :=
        h.fillCached (Inner.findCandidate s.asnCache es).2
      refine ⟨_, nodes', l', ?_, h', .of_row (fun _ => rfl) hsame⟩
      rw [Inner.apply, Inner.enrichCandidate, hes, ok_bind]
      dsimp only
      rw [e]
      rfl
  | enrich ip info =>
      cases info with
      | none =>
          exact ⟨_, nodes, l, rfl, h.congr rfl fun _ => rfl, .of_row (fun _ => rfl) (.refl l)⟩
      | some info =>
          obtain ⟨peers, nodes', e, h'⟩ := h.setAsn ip info
          have h₁ : Tracked { s with
              peers
              asnCache := (if ASN_CACHE_MAX ≤ s.asnCache.size then ∅ else s.asnCache).insert
                (prefixBase ip) (some info) } nodes' (l.setAsn ip info) :=
            h'.congr rfl fun _ => rfl
          refine ⟨_, nodes', _, ?_, h₁, .of_row (fun _ => rfl) (.setAsn l ip info)⟩
          rw [Inner.apply, Inner.enrich]
          dsimp only
          rw [e]
          rfl

end Tracked

/-! ### Runs -/

/-- A monitor, the id the host of each live flow had when the flow was opened, and how many hosts were
inserted into the arena. -/
structure Watched where
  inner : Inner
  openedAs : FlowKey → Option UInt32
  inserted : ℕ

/-- The id of a resident host. -/
def PeerArena.idAt (a : PeerArena) (ip : IpAddr) : Option UInt32 :=
  match a.get ip with
  | .ok e => e.map PeerEntry.id
  | .error _ => none

theorem Simulates.idAt {a : PeerArena} {nodes : List (UInt32 × Host)} {l : HostList}
    (h : Simulates a nodes l) (ip : IpAddr) : a.idAt ip = l.idAt ip := by
  obtain ⟨e, he, hb⟩ := h.get ip
  have hid := congrArg (Option.map PeerEntry.id) hb
  rw [Option.map_map, Option.map_map] at hid
  rw [PeerArena.idAt, he]
  exact hid

section
variable [Entropy]

structure WatchStep (w : Watched) (e : MonitorEvent) (w' : Watched) : Prop where
  ordered : Ordered w.inner e
  inner : w.inner.apply saturating e = .ok w'.inner
  openedAs : ∀ k, w'.openedAs k =
    if w.inner.flows.lookup k = none then w'.inner.peers.idAt k.remoteIp else w.openedAs k
  inserted : w'.inserted =
    w.inserted + (w'.inner.peers.index.keys \ w.inner.peers.index.keys).card

/-- The states of a monitor, from its start on, whose arena is as large as its live table may
become. -/
def WatchReachable : Watched → Prop :=
  Reachable (fun w => ∃ now wallBase arena, MAX_LIVE_FLOWS ≤ arena ∧
    w = ⟨.new now wallBase arena, fun _ => none, 0⟩) WatchStep

/-- While fewer hosts were inserted than there are slots: the hosts of the live flows are tracked,
and have the ids they had. -/
def Kept (w : Watched) : Prop :=
  w.inserted < 4294967295 → ∃ nodes l, Tracked w.inner nodes l ∧ nodes.length ≤ w.inserted ∧
    ∀ k, w.inner.row k ≠ none → w.openedAs k = l.idAt k.remoteIp

theorem kept_step {w w' : Watched} {e : MonitorEvent} (h : Kept w) (hs : WatchStep w e w') :
    Kept w' := by
  intro hlt
  obtain ⟨nodes, l, ht, hle, hid⟩ := h (by rw [hs.inserted] at hlt; omega)
  obtain ⟨s', nodes', l', e', ht', hkeeps⟩ := ht.apply (by rw [hs.inserted] at hlt; omega) hs.ordered
  rw [hs.inner, Except.ok.injEq] at e'
  subst e'
  refine ⟨nodes', l', ht', ?_, fun k hk => ?_⟩
  · have hcard := Finset.card_le_card_sdiff_add_card (s := w'.inner.peers.index.keys)
      (t := w.inner.peers.index.keys)
    rw [← Finmap.size_eq_card_keys, ← Finmap.size_eq_card_keys, ht.simulates.size,
      ht'.simulates.size] at hcard
    rw [hs.inserted]
    omega
  · rw [hs.openedAs]
    split
    · exact ht'.simulates.idAt k.remoteIp
    · next hn =>
        have hlive := Inner.row_eq_none.not.mpr hn
        rw [hid k hlive, hkeeps.idAt k hlive hk]

/-- The host of a live flow is in the arena, with the id it had when the flow was opened. -/
theorem live_hosts_kept {w : Watched} (h : WatchReachable w) (hins : w.inserted < 4294967295)
    {k : FlowKey} {f : Flow} (hk : w.inner.flows.lookup k = some f) :
    ∃ e, w.inner.peers.get k.remoteIp = .ok (some e) ∧ e.ip = k.remoteIp ∧
      w.openedAs k = some e.id := by
  have hkept : Kept w := by
    refine h.invariant (I := Kept) ?_ fun _ _ _ => kept_step
    rintro w ⟨now, wallBase, arena, harena, rfl⟩ -
    refine ⟨[], _, .new harena now wallBase, Nat.le_refl 0, fun k hn => ?_⟩
    exact absurd rfl hn
  obtain ⟨nodes, l, ht, -, hid⟩ := hkept hins
  have hlive : w.inner.row k ≠ none := by simp [Inner.row, hk]
  obtain ⟨x, hx⟩ := Option.ne_none_iff_exists'.mp (HostList.holds_iff_find.mp (ht.holds hlive))
  obtain ⟨e, he, hb⟩ := ht.simulates.get k.remoteIp
  rw [hx] at hb
  obtain ⟨e', rfl, hbare⟩ := Option.map_eq_some_iff.mp hb
  have hip : x.ip = k.remoteIp := Recency.key_of_find hx
  refine ⟨e', he, (congrArg PeerEntry.ip hbare).trans hip, ?_⟩
  rw [hid k hlive, HostList.idAt, hx]
  exact congrArg some (congrArg PeerEntry.id hbare).symm

end

/-- The first flow of a monitor. -/
theorem live_hosts_kept_syn : ∃ w : Watched, ∃ e,
    w.inner.peers.get (.v4 ⟨1, 1, 1, 1⟩) = .ok (some e) ∧ e.ip = .v4 ⟨1, 1, 1, 1⟩ ∧
      w.openedAs ⟨.v4 ⟨1, 1, 1, 1⟩, 9999, 40000, "TCP"⟩ = some e.id := by
  let := nothingRandom
  have hread : ((Inner.new 0 0 PEER_ARENA).record saturating .up aSyn 0).map (fun s =>
      (s.peers.index.keys.card, (s.flows.lookup ⟨.v4 ⟨1, 1, 1, 1⟩, 9999, 40000, "TCP"⟩).isSome)) =
        .ok (1, true) := by decide +kernel
  cases e₁ : (Inner.new 0 0 PEER_ARENA).record saturating .up aSyn 0 with
  | error err =>
      rw [e₁] at hread
      cases hread
  | ok s =>
  rw [e₁] at hread
  injection hread with hread
  injection hread with hcard hsome
  obtain ⟨f, hf⟩ := Option.isSome_iff_exists.mp hsome
  let w : Watched := ⟨s, fun k => s.peers.idAt k.remoteIp, s.peers.index.keys.card⟩
  have hstep : WatchStep ⟨.new 0 0 PEER_ARENA, fun _ => none, 0⟩ (.record .up aSyn 0) w :=
    ⟨trivial, e₁, fun k => rfl, by simp [w, Inner.new, PeerArena.new]⟩
  have hreach : WatchReachable w :=
    ⟨_, _, ⟨0, 0, PEER_ARENA, Nat.le_refl _, rfl⟩, .one hstep⟩
  exact ⟨w, live_hosts_kept hreach (by simp [w, hcard]) hf⟩

end Tunnel.Inspect
