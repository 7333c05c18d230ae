import Tunnel.Inspect.Residency
import Tunnel.Support.Rollup

/-!
# Inspect — Labels converge

Two orders of the same packets, each flow's own in the same order, come to the same labels and the
same bytes under each after a tick.  A flow's label is that of its own packets, but for a flow that is
obfuscated: there it also depends on whether its host was seen to torrent by then.  What a host is
known for only grows, and the tick looks once more at every flow.

* `replay`, `tells`: the row of a flow by its own packets, and whether one of its labels says that its
  host torrents.  Neither depends on other flows.
* `Agrees`: a row is what its own packets make it, but for what is known of its host.
* `recordAll_replayed`: a sequence of packets, in any order.
* `labels_converge`: the law for any two orders.
-/

namespace Tunnel.Inspect
open Support

/-! ### One flow -/

/-- The row of a flow by its own packets: their labels and lengths, in order. -/
def replay (row : Option Row) : List (AppProto × ℕ) → Option Row
  | [] => row
  | p :: ps => replay (some (heard row false p.1 p.2 0)) ps

/-- One of the labels the flow adopts says that its host torrents. -/
def tells (row : Option Row) : List (AppProto × ℕ) → Bool
  | [] => false
  | p :: ps =>
    adopts row p.1 && p.1.torrenting || tells (some (heard row false p.1 p.2 0)) ps

/-- What is compared of a row: its bytes, and its label once its host is looked at. -/
def Row.known (torrents : Bool) (r : Row) : AppProto × ℕ :=
  (Inspect.correlated torrents r.app, r.bytes)

/-- A host that is looked at again, when no less is known of it. -/
theorem correlated_of_le {t t' : Bool} (h : t = true → t' = true) (app : AppProto) :
    correlated t' (correlated t app) = correlated t' app := by
  unfold correlated
  cases t
  · simp
  · rw [h rfl]
    by_cases ha : app = .obfuscated <;> simp [ha]

/-- Two rows that come to the same once their host is known for as much as it is, or more. -/
def Agrees (torrents : Bool) (row row' : Option Row) : Prop :=
  ∀ t, (torrents = true → t = true) → row.map (Row.known t) = row'.map (Row.known t)

namespace Agrees

variable {torrents t : Bool} {row row' : Option Row}

theorem refl (torrents : Bool) (row : Option Row) : Agrees torrents row row := fun _ _ => rfl

theorem mono (h : Agrees torrents row row') (ht : torrents = true → t = true) : Agrees t row row' :=
  fun t' ht' => h t' fun e => ht' (ht e)

/-- The same label is adopted, or the same is kept. -/
theorem adopted (h : Agrees torrents row row') (app : AppProto) :
    adopts row app = adopts row' app ∧ ∀ t, (torrents = true → t = true) →
      correlated t (Inspect.adopted row app) = correlated t (Inspect.adopted row' app) := by
  cases row with
  | none =>
      have hn := h true fun _ => rfl
      cases row' with
      | none => exact ⟨rfl, fun _ _ => rfl⟩
      | some r' => cases hn
  | some r =>
      cases row' with
      | none => cases h true fun _ => rfl
      | some r' =>
          have happ : ∀ t, (torrents = true → t = true) →
              correlated t r.app = correlated t r'.app := fun t ht =>
            congrArg Prod.fst (Option.some.inj (h t ht))
          have hrank : r.app.rank = r'.app.rank := by
            rw [← rank_correlated true r.app, happ true fun _ => rfl, rank_correlated]
          refine ⟨by simp [adopts, hrank], fun t ht => ?_⟩
          simp only [Inspect.adopted, hrank]
          split
          · rfl
          · exact happ t ht

/-- A packet of the flow, its host known for as much as before or more. -/
theorem heard (h : Agrees torrents row row') (ht : torrents = true → t = true) (app : AppProto)
    (len : ℕ) (now now' : Instant) :
    Agrees t (some (heard row t app len now)) (some (Inspect.heard row' false app len now')) := by
  intro t' ht'
  have hb : ((row.map Row.bytes).getD 0) = (row'.map Row.bytes).getD 0 := by
    have e := congrArg (Option.map Prod.snd) (h true fun _ => rfl)
    rw [Option.map_map, Option.map_map] at e
    exact congrArg (Option.getD · 0) e
  simp only [Option.map_some, Row.known, Inspect.heard, correlated_of_le ht', hb]
  rw [correlated_of_le (by simp), (h.adopted app).2 t' fun e => ht' (ht e)]

end Agrees

/-! ### Packets in order -/

/-- A packet, and when it is recorded. -/
structure Captured where
  dir : Direction
  pkt : Bytes
  now : Instant

section
variable [Entropy]

def recordAll : List Captured → Inner → Checked Inner
  | [], s => return s
  | c :: cs, s => do recordAll cs (← s.record saturating c.dir c.pkt c.now)

/-- The packet, parsed. -/
def Captured.parsed (c : Captured) : Option ParsedPacket :=
  match parse c.pkt with
  | .ok p => p
  | .error _ => none

/-- The flow the packet belongs to. -/
def Captured.flow (c : Captured) : Option FlowKey := c.parsed.map (Inner.keyOf c.dir)

def flowsOf (cs : List Captured) : Finset FlowKey := (cs.filterMap Captured.flow).toFinset

/-- The packets of one flow. -/
def ofFlow (k : FlowKey) (cs : List Captured) : List Captured := cs.filter fun c => c.flow = some k

/-- The labels and lengths of the packets of one flow. -/
def seen (k : FlowKey) (cs : List Captured) : List (AppProto × ℕ) :=
  (ofFlow k cs).filterMap fun c => c.parsed.map fun p => (p.app, p.len)

/-- The same packets of each flow in the same order; the order between flows may differ, and so may
the times. -/
def Interleaved (cs cs' : List Captured) : Prop :=
  ∀ k, (ofFlow k cs).map (fun c => (c.dir, c.pkt)) = (ofFlow k cs').map fun c => (c.dir, c.pkt)

theorem Interleaved.seen {cs cs' : List Captured} (h : Interleaved cs cs') (k : FlowKey) :
    seen k cs = seen k cs' := by
  have e := congrArg (List.filterMap fun d : Direction × Bytes =>
    (Captured.parsed ⟨d.1, d.2, 0⟩).map fun p => (p.app, p.len)) (h k)
  rw [List.filterMap_map, List.filterMap_map] at e
  exact e

theorem mem_flowsOf {cs : List Captured} {k : FlowKey} : k ∈ flowsOf cs ↔ ofFlow k cs ≠ [] := by
  simp [flowsOf, ofFlow, List.filter_eq_nil_iff]

theorem Interleaved.flowsOf {cs cs' : List Captured} (h : Interleaved cs cs') :
    flowsOf cs = flowsOf cs' := by
  ext k
  have e := congrArg List.length (h k)
  rw [List.length_map, List.length_map] at e
  rw [mem_flowsOf, mem_flowsOf, ← List.length_pos_iff, ← List.length_pos_iff, e]

theorem Interleaved.ofFlow_nil {cs cs' : List Captured} (h : Interleaved cs cs') {k : FlowKey} :
    ofFlow k cs = [] ↔ ofFlow k cs' = [] := by
  rw [← not_iff_not, ← ne_eq, ← ne_eq, ← mem_flowsOf, ← mem_flowsOf, h.flowsOf]

/-- The live table and the arena have room for all of these packets. -/
structure Room (s : Inner) (cs : List Captured) : Prop where
  flows : (s.flows.keys ∪ flowsOf cs).card ≤ MAX_LIVE_FLOWS
  hosts : (s.peers.index.keys ∪ (flowsOf cs).image FlowKey.remoteIp).card ≤ s.peers.cap

variable {s s' : Inner} {nodes : List (UInt32 × Host)} {l l' : HostList} {c : Captured}
  {cs : List Captured} {p : ParsedPacket} {k : FlowKey}

omit [Entropy] in
theorem mem_index_keys (h : Simulates s.peers nodes l) (ip : IpAddr) :
    ip ∈ s.peers.index.keys ↔ l.Holds ip := by
  rw [Finmap.mem_keys, ← Finmap.lookup_isSome, Option.isSome_iff_ne_none, ne_eq, h.lookup_eq_none,
    HostList.holds_iff_find]

theorem flowsOf_cons_some (hk : c.flow = some k) : flowsOf (c :: cs) = insert k (flowsOf cs) := by
  simp [flowsOf, hk]

theorem flowsOf_cons_none (hk : c.flow = none) : flowsOf (c :: cs) = flowsOf cs := by
  simp [flowsOf, hk]

namespace Room

/-- The packet's flow is among those the table has room for. -/
theorem size_lt (h : Room s (c :: cs)) (hk : c.flow = some k) (hnew : s.flows.lookup k = none) :
    s.flows.size < MAX_LIVE_FLOWS := by
  have hn : k ∉ s.flows.keys := by
    rw [Finmap.mem_keys, ← Finmap.lookup_isSome, hnew]
    simp
  have hsub : insert k s.flows.keys ⊆ s.flows.keys ∪ flowsOf (c :: cs) := by
    rw [flowsOf_cons_some hk, Finset.union_insert]
    exact Finset.insert_subset_insert _ Finset.subset_union_left
  have hle := (Finset.card_le_card hsub).trans h.flows
  rw [Finset.card_insert_of_notMem hn, ← Finmap.size_eq_card_keys] at hle
  exact hle

/-- Its host is among those the arena has room for. -/
theorem length_lt (h : Room s (c :: cs)) (hs : Simulates s.peers nodes l) (hk : c.flow = some k)
    (hnew : ¬ l.Holds k.remoteIp) : l.hosts.length < l.cap := by
  have hsub : insert k.remoteIp s.peers.index.keys ⊆
      s.peers.index.keys ∪ (flowsOf (c :: cs)).image FlowKey.remoteIp := by
    rw [flowsOf_cons_some hk, Finset.image_insert, Finset.union_insert]
    exact Finset.insert_subset_insert _ Finset.subset_union_left
  have hle := (Finset.card_le_card hsub).trans h.hosts
  rw [Finset.card_insert_of_notMem ((mem_index_keys hs _).not.mpr hnew),
    ← Finmap.size_eq_card_keys, hs.size, hs.cap] at hle
  rw [hs.hosts, List.length_map]
  exact hle

/-- The packet takes its own room. -/
theorem tail (h : Room s (c :: cs)) (hk : c.flow = some k)
    (hf : s'.flows.keys ⊆ insert k s.flows.keys)
    (hi : s'.peers.index.keys ⊆ insert k.remoteIp s.peers.index.keys)
    (hcap : s'.peers.cap = s.peers.cap) : Room s' cs := by
  refine ⟨(Finset.card_le_card ?_).trans h.flows, (Finset.card_le_card ?_).trans (hcap ▸ h.hosts)⟩
  · rw [flowsOf_cons_some hk, Finset.union_insert, ← Finset.insert_union]
    exact Finset.union_subset_union hf (Finset.Subset.refl _)
  · rw [flowsOf_cons_some hk, Finset.image_insert, Finset.union_insert, ← Finset.insert_union]
    exact Finset.union_subset_union hi (Finset.Subset.refl _)

end Room

/-- What a packet that is given a row does: to its flow's row, to what is known of its host, and to
nothing else. -/
structure Opened (s s' : Inner) (l l' : HostList) (c : Captured) (p : ParsedPacket)
    (key : FlowKey) : Prop where
  row : ∀ k, s'.row k = if k = key
    then some (heard (s.row key) (l'.torrents key.remoteIp) p.app p.len c.now) else s.row k
  torrents : ∀ ip, l'.torrents ip =
    (l.torrents ip || (decide (ip = key.remoteIp) && adopts (s.row key) p.app && p.app.torrenting))
  counted : ∀ rest, Balanced s.flows s.protoBytes rest → Balanced s'.flows s'.protoBytes rest ∧
    s'.archive = s.archive ∧ s'.archiveDropped = s.archiveDropped

theorem record_opened (h : Tracked s nodes l) (hcap : l.cap < 4294967295) (hroom : Room s (c :: cs))
    (hp : c.parsed = some p) :
    ∃ s' nodes' l', s.record saturating c.dir c.pkt c.now = .ok s' ∧ Tracked s' nodes' l' ∧
      l'.cap = l.cap ∧ Room s' cs ∧ Opened s s' l l' c p (Inner.keyOf c.dir p) := by
  have hk : c.flow = some (Inner.keyOf c.dir p) := by rw [Captured.flow, hp]; rfl
  have hlive : s.row (Inner.keyOf c.dir p) ≠ none → l.Holds (Inner.keyOf c.dir p).remoteIp := h.holds
  have hd : ¬ s.declines c.dir p := fun hd =>
    absurd (hroom.size_lt hk hd.2) (Nat.not_lt_of_le hd.1)
  have hlt := h.length_lt hcap
  obtain ⟨s', nodes', e, h', hheard⟩ := h.recordOpen c.now hd fun _ => hlt
  have hholds : ∀ ip, (l.noted (s.row (Inner.keyOf c.dir p)) p.app (Inner.keyOf c.dir p).remoteIp
      c.now).Holds ip ↔ ip = (Inner.keyOf c.dir p).remoteIp ∨ l.Holds ip := fun ip =>
    HostList.holds_noted h.simulates.nodup hlive (hroom.length_lt h.simulates hk)
  have hrecord : s.record saturating c.dir c.pkt c.now = .ok s' := by
    unfold Captured.parsed at hp
    split at hp
    · next parsed hparse =>
        subst hp
        rw [Inner.record, hparse, ok_bind]
        exact e
    · cases hp
  refine ⟨s', nodes', _, hrecord, h', HostList.cap_noted, hroom.tail hk ?_ ?_ ?_, hheard.row,
    fun ip => HostList.torrents_noted h.simulates.nodup fun hip => (hholds ip).mpr (.inr hip), ?_⟩
  · obtain ⟨f, hf⟩ := hheard.flows
    intro j hj
    rw [hf, Finmap.mem_keys, Finmap.mem_insert] at hj
    rw [Finset.mem_insert, Finmap.mem_keys]
    exact hj
  · intro j hj
    rw [mem_index_keys h'.simulates, hholds] at hj
    rw [Finset.mem_insert, mem_index_keys h.simulates]
    exact hj
  · rw [h'.simulates.cap, HostList.cap_noted, h.simulates.cap]
  · intro rest hb
    have hr := (Inner.recordParsed_spec hb c.dir p c.now).2 s' e
    exact ⟨hr.balanced hd, hr.archive, hr.archiveDropped⟩

/-- After a sequence of packets: each row is what the packets of its own flow make of it, and a host is
known to torrent when it was, or when the packets of one of its flows say so. -/
structure Replayed (s s' : Inner) (l l' : HostList) (stem : FlowKey → Option Row)
    (cs : List Captured) : Prop where
  row : ∀ k, Agrees (l'.torrents k.remoteIp) (s'.row k) (replay (stem k) (seen k cs))
  torrents : ∀ ip, l'.torrents ip = true ↔
    l.torrents ip = true ∨ ∃ k, k.remoteIp = ip ∧ tells (stem k) (seen k cs) = true
  quiet : ∀ k, ofFlow k cs = [] → s'.row k = s.row k
  lastSeen : ∀ k, (s'.row k).map Row.lastSeen =
    ((ofFlow k cs).getLast?.map Captured.now).or ((s.row k).map Row.lastSeen)
  counted : ∀ rest, Balanced s.flows s.protoBytes rest → Balanced s'.flows s'.protoBytes rest ∧
    s'.archive = s.archive ∧ s'.archiveDropped = s.archiveDropped

/-- A packet in front of others of its flow. -/
theorem seen_cons (hp : c.parsed = some p) (cs : List Captured) (stem : FlowKey → Option Row)
    (k : FlowKey) :
    let key := Inner.keyOf c.dir p
    let stem' := Function.update stem key (some (heard (stem key) false p.app p.len 0))
    replay (stem k) (seen k (c :: cs)) = replay (stem' k) (seen k cs) ∧
      (tells (stem k) (seen k (c :: cs)) = true ↔
        k = key ∧ adopts (stem key) p.app = true ∧ p.app.torrenting = true ∨
          tells (stem' k) (seen k cs) = true) := by
  intro key stem'
  have hflow : c.flow = some key := by rw [Captured.flow, hp]; rfl
  by_cases hk : k = key
  · subst hk
    have hs : seen key (c :: cs) = (p.app, p.len) :: seen key cs := by
      simp [seen, ofFlow, hflow, hp]
    rw [hs, replay, tells, show stem' key = _ from Function.update_self ..]
    simp
  · have hs : seen k (c :: cs) = seen k cs := by simp [seen, ofFlow, hflow, Ne.symm hk]
    rw [hs, show stem' k = stem k from Function.update_of_ne hk ..]
    simp [hk]

/-- A packet the monitor does not read leaves it as it was. -/
theorem record_unparsed (hp : c.parsed = none) : s.record saturating c.dir c.pkt c.now = .ok s := by
  obtain ⟨parsed, hparse⟩ := returns_parse c.pkt
  rw [Captured.parsed, hparse] at hp
  dsimp only at hp
  rw [Inner.record, hparse, ok_bind, hp]
  rfl

namespace Replayed

variable {s₁ : Inner} {l₁ : HostList} {stem : FlowKey → Option Row}

theorem nil (hstem : ∀ k, Agrees (l.torrents k.remoteIp) (s.row k) (stem k)) :
    Replayed s s l l stem [] where
  row := hstem
  torrents := by simp [seen, ofFlow, tells]
  quiet _ _ := rfl
  lastSeen := by simp [ofFlow]
  counted _ hb := ⟨hb, rfl, rfl⟩

theorem cons_unparsed (hp : c.parsed = none) (h : Replayed s s' l l' stem cs) :
    Replayed s s' l l' stem (c :: cs) := by
  have hflow : c.flow = none := by rw [Captured.flow, hp]; rfl
  have hof : ∀ k, ofFlow k (c :: cs) = ofFlow k cs := fun k => by simp [ofFlow, hflow]
  have hseen : ∀ k, seen k (c :: cs) = seen k cs := fun k => by rw [seen, hof, seen]
  constructor
  case row => exact fun k => hseen k ▸ h.row k
  case torrents => exact fun ip => by simp only [hseen]; exact h.torrents ip
  case quiet => exact fun k hk => h.quiet k (hof k ▸ hk)
  case lastSeen => exact fun k => hof k ▸ h.lastSeen k
  case counted => exact h.counted

/-- A packet that is given a row, and then the others, from the rows it leaves. -/
theorem cons_opened (hp : c.parsed = some p)
    (hstem : ∀ k, Agrees (l.torrents k.remoteIp) (s.row k) (stem k))
    (ho : Opened s s₁ l l₁ c p (Inner.keyOf c.dir p))
    (h : Replayed s₁ s' l₁ l' (Function.update stem (Inner.keyOf c.dir p)
      (some (heard (stem (Inner.keyOf c.dir p)) false p.app p.len 0))) cs) :
    Replayed s s' l l' stem (c :: cs) := by
  have hflow : c.flow = some (Inner.keyOf c.dir p) := by rw [Captured.flow, hp]; rfl
  set key := Inner.keyOf c.dir p with hkey
  constructor
  case row => exact fun k => (seen_cons hp cs stem k).1 ▸ h.row k
  case torrents =>
    intro ip
    have hadopts : adopts (s.row key) p.app = adopts (stem key) p.app :=
      ((hstem key).adopted p.app).1
    rw [h.torrents, ho.torrents]
    simp only [fun k => (seen_cons hp cs stem k).2, hadopts, Bool.or_eq_true, Bool.and_eq_true,
      decide_eq_true_eq]
    constructor
    · rintro ((ht | ⟨⟨rfl, ha⟩, ht⟩) | ⟨k, rfl, ht⟩)
      · exact .inl ht
      · exact .inr ⟨key, rfl, .inl ⟨rfl, ha, ht⟩⟩
      · exact .inr ⟨k, rfl, .inr ht⟩
    · rintro (ht | ⟨k, rfl, ⟨rfl, ha, ht⟩ | ht⟩)
      · exact .inl (.inl ht)
      · exact .inl (.inr ⟨⟨rfl, ha⟩, ht⟩)
      · exact .inr ⟨k, rfl, ht⟩
  case quiet =>
    intro k hk
    have hne : k ≠ key := by
      rintro rfl
      simp [ofFlow, hflow] at hk
    have hof : ofFlow k cs = [] := by simpa [ofFlow, hflow, Ne.symm hne] using hk
    rw [h.quiet k hof, ho.row, if_neg hne]
  case lastSeen =>
    intro k
    rw [h.lastSeen, ho.row]
    by_cases hk : k = key
    · rw [if_pos hk, show ofFlow k (c :: cs) = c :: ofFlow k cs by simp [ofFlow, hflow, hk],
        List.getLast?_cons]
      cases (ofFlow k cs).getLast? <;> simp [heard]
    · rw [if_neg hk, show ofFlow k (c :: cs) = ofFlow k cs by simp [ofFlow, hflow, Ne.symm hk]]
  case counted =>
    intro rest hb
    obtain ⟨hb₁, ha₁, hd₁⟩ := ho.counted rest hb
    obtain ⟨hb', ha', hd'⟩ := h.counted rest hb₁
    exact ⟨hb', ha'.trans ha₁, hd'.trans hd₁⟩

end Replayed

omit [Entropy] in
/-- The rows a packet leaves still agree with what the packets so far make of them. -/
theorem Opened.agrees {stem : FlowKey → Option Row} {key : FlowKey} (ho : Opened s s' l l' c p key)
    (hstem : ∀ k, Agrees (l.torrents k.remoteIp) (s.row k) (stem k)) (k : FlowKey) :
    Agrees (l'.torrents k.remoteIp) (s'.row k)
      (Function.update stem key (some (heard (stem key) false p.app p.len 0)) k) := by
  have hmono : ∀ ip, l.torrents ip = true → l'.torrents ip = true := by
    intro ip ht
    rw [ho.torrents, ht]
    rfl
  rw [ho.row]
  by_cases hk : k = key
  · rw [if_pos hk, hk, Function.update_self]
    exact (hstem key).heard (hmono _) p.app p.len c.now 0
  · rw [if_neg hk, Function.update_of_ne hk]
    exact (hstem k).mono (hmono _)

theorem recordAll_replayed (h : Tracked s nodes l) (hcap : l.cap < 4294967295) (hroom : Room s cs)
    {stem : FlowKey → Option Row}
    (hstem : ∀ k, Agrees (l.torrents k.remoteIp) (s.row k) (stem k)) :
    ∃ s' nodes' l', recordAll cs s = .ok s' ∧ Tracked s' nodes' l' ∧
      Replayed s s' l l' stem cs := by
  induction cs generalizing s nodes l stem with
  | nil => exact ⟨s, nodes, l, rfl, h, .nil hstem⟩
  | cons c cs ih =>
      cases hp : c.parsed with
      | none =>
          have hflow : c.flow = none := by rw [Captured.flow, hp]; rfl
          obtain ⟨s', nodes', l', e', h', hr⟩ :=
            ih h hcap ⟨flowsOf_cons_none hflow ▸ hroom.flows, flowsOf_cons_none hflow ▸ hroom.hosts⟩
              hstem
          exact ⟨s', nodes', l', by rw [recordAll, record_unparsed hp, ok_bind, e'], h',
            hr.cons_unparsed hp⟩
      | some p =>
          obtain ⟨s₁, nodes₁, l₁, e₁, h₁, hcap₁, hroom₁, ho⟩ := record_opened h hcap hroom hp
          -- The rest is heard from the row this packet leaves, not from the first one.
          obtain ⟨s', nodes', l', e', h', hr⟩ := ih h₁ (hcap₁ ▸ hcap) hroom₁ (ho.agrees hstem)
          exact ⟨s', nodes', l', by rw [recordAll, e₁, ok_bind, e'], h', .cons_opened hp hstem ho hr⟩

/-! ### The tick after them -/

/-- The last packet of each flow is less than the idle time old. -/
def Fresh (now : Instant) (cs : List Captured) : Prop :=
  ∀ k, ∀ c ∈ (ofFlow k cs).getLast?, durationSince now c.now < FLOW_IDLE_EVICT

namespace Replayed

variable {s₁ s₂ : Inner} {l₁ l₂ : HostList} {cs₁ cs₂ : List Captured} {now : Instant}
  {stem : FlowKey → Option Row}

/-- A flow with a packet is not idle. -/
theorem not_idle (h : Replayed s s' l l' stem cs) (hf : Fresh now cs) (hk : ofFlow k cs ≠ [])
    {r : Row} (hr : s'.row k = some r) : r.isIdle now = false := by
  obtain ⟨c, hc⟩ := Option.ne_none_iff_exists'.mp fun hn => hk (List.getLast?_eq_none_iff.mp hn)
  have hl := h.lastSeen k
  rw [hr, hc] at hl
  have hlt := hf k c hc
  rw [← show r.lastSeen = c.now from Option.some.inj hl] at hlt
  simpa [Row.isIdle] using hlt

variable (h₁ : Replayed s s₁ l l₁ stem cs₁) (h₂ : Replayed s s₂ l l₂ stem cs₂)
  (hi : Interleaved cs₁ cs₂)
include h₁ h₂ hi

/-- What is known of the hosts does not depend on the order. -/
theorem torrents_eq (ip : IpAddr) : l₁.torrents ip = l₂.torrents ip := by
  rw [Bool.eq_iff_iff, h₁.torrents, h₂.torrents]
  simp only [hi.seen]

/-- With as much known of its host, a row is the same. -/
theorem known_eq (k : FlowKey) : (s₁.row k).map (Row.known (l₁.torrents k.remoteIp)) =
    (s₂.row k).map (Row.known (l₁.torrents k.remoteIp)) := by
  have ht := torrents_eq h₁ h₂ hi k.remoteIp
  rw [h₁.row k _ id, h₂.row k _ (fun e => ht ▸ e), hi.seen]

variable (hf₁ : Fresh now cs₁) (hf₂ : Fresh now cs₂)
include hf₁ hf₂

/-- A row is idle in both, and then it is the row there was, or in neither. -/
theorem rows (k : FlowKey) :
    (s₁.row k).filter (Row.isIdle now) = (s₂.row k).filter (Row.isIdle now) ∧
      ((s₁.row k).filter fun r => !r.isIdle now).map (Row.known (l₁.torrents k.remoteIp)) =
        ((s₂.row k).filter fun r => !r.isIdle now).map (Row.known (l₁.torrents k.remoteIp)) := by
  by_cases hk : ofFlow k cs₁ = []
  · rw [h₁.quiet k hk, h₂.quiet k (hi.ofFlow_nil.mp hk)]
    exact ⟨rfl, rfl⟩
  · have hk₂ := hi.ofFlow_nil.not.mp hk
    have hfilter : ∀ {s' : Inner}, (∀ r, s'.row k = some r → r.isIdle now = false) →
        (s'.row k).filter (Row.isIdle now) = none ∧
          (s'.row k).filter (fun r => !r.isIdle now) = s'.row k := by
      intro s' hn
      cases hr : s'.row k with
      | none => exact ⟨rfl, rfl⟩
      | some r => simp [Option.filter, hn r hr]
    obtain ⟨hi₁, hn₁⟩ := hfilter fun r hr => h₁.not_idle hf₁ hk hr
    obtain ⟨hi₂, hn₂⟩ := hfilter fun r hr => h₂.not_idle hf₂ hk₂ hr
    refine ⟨hi₁.trans hi₂.symm, ?_⟩
    rw [hn₁, hn₂, known_eq h₁ h₂ hi]

end Replayed

omit [Entropy] in
/-- The records a tick archives have the bytes of the idle flows, under their labels. -/
theorem archivedBytes_tick (h : Tracked s nodes l) {now : Instant} {order visit : List FlowKey}
    {all records : List FlowRecord} (ho : Ordered s (.tick now order visit))
    (ha : Retained all s.archiveDropped s.archive)
    (e : s.tick saturating now order visit = .ok (s', records)) (label : String) :
    archivedBytes records label = liveBytes (s.flows.retain fun _ => Inner.isIdle now) label := by
  obtain ⟨⟨s₁, records₁⟩, e₁, e⟩ := bind_eq_ok.mp e
  obtain ⟨s₂, -, e⟩ := bind_eq_ok.mp e
  cases e
  obtain ⟨s₁', records', e₁', -, hf⟩ := Inner.sweep_idle h.simulates ho.1 now
  rw [e₁, Except.ok.injEq, Prod.mk.injEq] at e₁'
  have hb := (Inner.sweep_spec (s := s.advance now) ha e₁).bytes label
  rw [e₁'.1, hf, show (s.advance now).flows = s.flows from rfl] at hb
  have hsplit := Finmap.total_retain_add (fun _ f => share f label) s.flows fun _ =>
    Inner.isIdle now
  unfold liveBytes at hb ⊢
  omega

/-! ### Two orders -/

structure MonitorStep (s : Inner) (e : MonitorEvent) (s' : Inner) : Prop where
  ordered : Ordered s e
  apply : s.apply saturating e = .ok s'

/-- The states of a monitor, from its start on, whose arena is as large as its live table may become,
as `PEER_ARENA` is, and has no slot at `NIL`. -/
def MonitorReachable : Inner → Prop :=
  Reachable (fun s => ∃ now wallBase arena, MAX_LIVE_FLOWS ≤ arena ∧ arena < 4294967295 ∧
    s = .new now wallBase arena) MonitorStep

theorem reachable_new : MonitorReachable (.new 0 0 PEER_ARENA) :=
  .of_start ⟨0, 0, PEER_ARENA, by decide, by decide, rfl⟩

theorem MonitorReachable.recordAll (h : MonitorReachable s) {cs : List Captured}
    (e : Inspect.recordAll cs s = .ok s') : MonitorReachable s' := by
  induction cs generalizing s with
  | nil =>
      cases e
      exact h
  | cons c cs ih =>
      obtain ⟨s₁, hs, e⟩ := bind_eq_ok.mp e
      have hstep : MonitorStep s (.record c.dir c.pkt c.now) s₁ := ⟨trivial, hs⟩
      exact ih (Reachable.run h (.one hstep)) e

/-- What every reachable state has: hosts that are tracked, and counters that agree. -/
def Sound (s : Inner) : Prop :=
  (∃ nodes l, Tracked s nodes l ∧ l.cap < 4294967295) ∧ ∃ a, Conserved a ∧ a.inner = s

theorem sound_step {e : MonitorEvent} (h : Sound s) (hs : MonitorStep s e s') :
    Sound s' ∧ ∀ k r r', s.row k = some r → s'.row k = some r' → r.app.rank ≤ r'.app.rank := by
  obtain ⟨⟨nodes, l, ht, hcap⟩, a, ha, rfl⟩ := h
  have hlt := ht.length_lt hcap
  obtain ⟨s₁, nodes', l', e₁, ht', hfollows⟩ := ht.apply hlt hs.ordered
  rw [hs.apply, Except.ok.injEq] at e₁
  subst e₁
  refine ⟨⟨⟨nodes', l', ht', by rwa [hfollows.cap]⟩, ⟨s', a.archived ++ archivedBy a.inner e,
    unrowedBy a.inner a.unrowed e⟩, ?_, rfl⟩, hfollows.rank⟩
  exact conserved_step ha ⟨hs.ordered, hs.apply, rfl, rfl⟩

theorem sound_reachable (h : MonitorReachable s) : Sound s := by
  refine h.invariant (I := Sound) ?_ fun _ _ _ hs he => (sound_step hs he).1
  rintro s ⟨now, wallBase, arena, hmin, hmax, rfl⟩
  refine ⟨⟨[], _, .new hmin now wallBase, ?_⟩, ⟨_, [], ∅⟩, conserved_new now wallBase arena, rfl⟩
  exact Nat.max_lt.mpr ⟨hmax, by decide⟩

/-- The same labels of the live flows, and the same bytes under each label. -/
structure SameLabels (s s' : Inner) : Prop where
  flows : ∀ k, (s.flows.lookup k).map Flow.app = (s'.flows.lookup k).map Flow.app
  protoBytes : ∀ label, s.protoBytes.get label = s'.protoBytes.get label

omit [Entropy] in
/-- Rows that agree, with what is besides the live table, have the same labels and bytes. -/
theorem SameLabels.of_known {s₁ s₂ : Inner} {rest : String → ℕ}
    (hr : ∀ k, (s₁.row k).map (fun r => (r.app, r.bytes)) =
      (s₂.row k).map fun r => (r.app, r.bytes))
    (hb₁ : Balanced s₁.flows s₁.protoBytes rest) (hb₂ : Balanced s₂.flows s₂.protoBytes rest) :
    SameLabels s₁ s₂ where
  flows k := by
    have e := congrArg (Option.map Prod.fst) (hr k)
    simp only [Inner.row, Option.map_map] at e
    exact e
  protoBytes label := by
    rw [hb₁, hb₂, liveBytes, liveBytes]
    congr 1
    refine Finmap.total_congr fun k => ?_
    have e := congrArg (Option.map fun d : AppProto × ℕ => if d.1.label = label then d.2 else 0)
      (hr k)
    simp only [Inner.row, Option.map_map] at e
    exact e

/-- A tick after either order of the packets archives as many bytes under each label. -/
theorem archivedBytes_tick_eq {s₁ s₂ s₁' s₂' : Inner} {nodes₁ nodes₂ : List (UInt32 × Host)}
    {l l₁ l₂ : HostList} {cs₁ cs₂ : List Captured} {stem : FlowKey → Option Row} {now : Instant}
    {order₁ visit₁ order₂ visit₂ : List FlowKey} {archived records₁ records₂ : List FlowRecord}
    (ht₁ : Tracked s₁ nodes₁ l₁) (ht₂ : Tracked s₂ nodes₂ l₂)
    (hr₁ : Replayed s s₁ l l₁ stem cs₁) (hr₂ : Replayed s s₂ l l₂ stem cs₂)
    (hi : Interleaved cs₁ cs₂) (hf₁ : Fresh now cs₁) (hf₂ : Fresh now cs₂)
    (ho₁ : Ordered s₁ (.tick now order₁ visit₁)) (ho₂ : Ordered s₂ (.tick now order₂ visit₂))
    (hret₁ : Retained archived s₁.archiveDropped s₁.archive)
    (hret₂ : Retained archived s₂.archiveDropped s₂.archive)
    (e₁ : s₁.tick saturating now order₁ visit₁ = .ok (s₁', records₁))
    (e₂ : s₂.tick saturating now order₂ visit₂ = .ok (s₂', records₂)) (label : String) :
    archivedBytes records₁ label = archivedBytes records₂ label := by
  rw [archivedBytes_tick ht₁ ho₁ hret₁ e₁, archivedBytes_tick ht₂ ho₂ hret₂ e₂]
  refine Finmap.total_congr fun k => ?_
  have e := congrArg (Option.map fun r : Row => if r.app.label = label then r.bytes else 0)
    (hr₁.rows hr₂ hi hf₁ hf₂ k).1
  simp only [Inner.row, Option.filter_map, Option.map_map] at e
  rw [Finmap.lookup_retain, Finmap.lookup_retain]
  exact e

omit [Entropy] in
/-- A row of a tick is one of before, with what is known of its host. -/
theorem app_of_correlated {row row' : Option Row} {torrents : Bool} {p : Row → Bool} {r : Row}
    (h : row' = (row.filter p).map (Row.correlated torrents)) (hr : row' = some r) :
    (row.map (Row.known torrents)).map Prod.fst = some r.app := by
  obtain ⟨r₀, hr₀, rfl⟩ := Option.map_eq_some_iff.mp (h.symm.trans hr)
  rw [(Option.filter_eq_some_iff.mp hr₀).1]
  rfl

/-- Two orders of the same packets leave the same labels after a tick. -/
theorem Sound.converges (h : Sound s) {cs₁ cs₂ : List Captured} (hi : Interleaved cs₁ cs₂)
    (hroom₁ : Room s cs₁) :
    ∃ s₁ s₂, recordAll cs₁ s = .ok s₁ ∧ recordAll cs₂ s = .ok s₂ ∧
      ∀ now order₁ visit₁ order₂ visit₂, Ordered s₁ (.tick now order₁ visit₁) →
        Ordered s₂ (.tick now order₂ visit₂) → ∃ s₁' s₂' records₁ records₂,
          s₁.tick saturating now order₁ visit₁ = .ok (s₁', records₁) ∧
          s₂.tick saturating now order₂ visit₂ = .ok (s₂', records₂) ∧
          (∀ k f₁ f₂, s₁'.flows.lookup k = some f₁ → s₂'.flows.lookup k = some f₂ →
            f₁.app = f₂.app) ∧
          (Fresh now cs₁ → Fresh now cs₂ → SameLabels s₁' s₂') := by
  obtain ⟨⟨nodes, l, ht, hcap⟩, a, ha, rfl⟩ := h
  have hroom₂ : Room a.inner cs₂ := ⟨hi.flowsOf ▸ hroom₁.flows, hi.flowsOf ▸ hroom₁.hosts⟩
  obtain ⟨s₁, nodes₁, l₁, e₁, ht₁, hr₁⟩ :=
    recordAll_replayed ht hcap hroom₁ fun k => .refl _ (a.inner.row k)
  obtain ⟨s₂, nodes₂, l₂, e₂, ht₂, hr₂⟩ :=
    recordAll_replayed ht hcap hroom₂ fun k => .refl _ (a.inner.row k)
  refine ⟨s₁, s₂, e₁, e₂, fun now order₁ visit₁ order₂ visit₂ ho₁ ho₂ => ?_⟩
  obtain ⟨s₁', records₁, nodes₁', l₁', e₁', -, -, hrow₁⟩ := ht₁.tick ho₁
  obtain ⟨s₂', records₂, nodes₂', l₂', e₂', -, -, hrow₂⟩ := ht₂.tick ho₂
  refine ⟨s₁', s₂', records₁, records₂, e₁', e₂', fun k f₁ f₂ hk₁ hk₂ => ?_, fun hf₁ hf₂ => ?_⟩
  · have happ₁ := app_of_correlated (r := f₁.row) (hrow₁ k) (by rw [Inner.row, hk₁]; rfl)
    have happ₂ := app_of_correlated (r := f₂.row) (hrow₂ k) (by rw [Inner.row, hk₂]; rfl)
    rw [← hr₁.torrents_eq hr₂ hi, ← hr₁.known_eq hr₂ hi, happ₁] at happ₂
    exact Option.some.inj happ₂
  obtain ⟨hb₁, ha₁, hd₁⟩ := hr₁.counted _ ha.label
  obtain ⟨hb₂, ha₂, hd₂⟩ := hr₂.counted _ ha.label
  have hret₁ : Retained a.archived s₁.archiveDropped s₁.archive := by
    rw [ha₁, hd₁]
    exact ha.retained
  have hret₂ : Retained a.archived s₂.archiveDropped s₂.archive := by
    rw [ha₂, hd₂]
    exact ha.retained
  have hbal₁ := ((Inner.tick_spec hb₁ hret₁ now order₁ visit₁).2 s₁' records₁ e₁').balanced
  have hbal₂ := ((Inner.tick_spec hb₂ hret₂ now order₂ visit₂).2 s₂' records₂ e₂').balanced
  simp only [← archivedBytes_tick_eq ht₁ ht₂ hr₁ hr₂ hi hf₁ hf₂ ho₁ ho₂ hret₁ hret₂ e₁' e₂'] at hbal₂
  -- What is besides the live table is the same now, so the rows decide.
  refine .of_known (fun k => ?_) hbal₁ hbal₂
  have hk := (hr₁.rows hr₂ hi hf₁ hf₂ k).2
  rw [hrow₁, hrow₂, Option.map_map, Option.map_map, ← hr₁.torrents_eq hr₂ hi]
  exact hk

/-- After a tick, a host with a merely obfuscated flow does not torrent. -/
theorem Tracked.not_torrenting (ht : Tracked s nodes l) {now : Instant}
    {order visit : List FlowKey} (hs : MonitorStep s (.tick now order visit) s') {k : FlowKey}
    {f : Flow} (hf : s'.flows.lookup k = some f) (happ : f.app = .obfuscated) :
    s'.peers.isTorrenting k.remoteIp = .ok false := by
  obtain ⟨s₁, records, nodes', l', e, ht', hsame, hrow⟩ := ht.tick hs.ordered
  have ha := hs.apply
  rw [Inner.apply, e] at ha
  cases ha
  rw [ht'.simulates.isTorrenting, hsame.torrents]
  have hk := hrow k
  rw [Inner.row, hf, Option.map_some] at hk
  obtain ⟨r, -, hr⟩ := Option.map_eq_some_iff.mp hk.symm
  have hlabel := congrArg Row.app hr
  rw [show f.row.app = f.app from rfl, happ, Row.correlated] at hlabel
  cases htorrents : l.torrents k.remoteIp with
  | false => rfl
  | true =>
      -- Correlation has relabelled what was obfuscated.
      rw [htorrents] at hlabel
      simp only [correlated, and_true] at hlabel
      split at hlabel
      · cases hlabel
      · next hne => exact absurd hlabel hne

/-- From any reachable state, two orders of the same packets, each flow's own in the same order, that
the live table and the arena have room for: after a tick at the same time a flow that is live in both
has the same label, and if by then no flow of the packets was idle the same flows are live, and each
label has the same bytes.  No event lowers the rank of a live flow's label, and after a tick no flow to
a host that torrents is merely obfuscated. -/
theorem labels_converge (h : MonitorReachable s) :
    (∀ cs₁ cs₂, Interleaved cs₁ cs₂ → Room s cs₁ → ∃ s₁ s₂, recordAll cs₁ s = .ok s₁ ∧
      recordAll cs₂ s = .ok s₂ ∧ ∀ now order₁ visit₁ order₂ visit₂,
        Ordered s₁ (.tick now order₁ visit₁) → Ordered s₂ (.tick now order₂ visit₂) →
          ∃ s₁' s₂' records₁ records₂,
            s₁.tick saturating now order₁ visit₁ = .ok (s₁', records₁) ∧
            s₂.tick saturating now order₂ visit₂ = .ok (s₂', records₂) ∧
            (∀ k f₁ f₂, s₁'.flows.lookup k = some f₁ → s₂'.flows.lookup k = some f₂ →
              f₁.app = f₂.app) ∧
            (Fresh now cs₁ → Fresh now cs₂ → SameLabels s₁' s₂')) ∧
    (∀ e s', MonitorStep s e s' → ∀ k f f', s.flows.lookup k = some f →
      s'.flows.lookup k = some f' → f.app.rank ≤ f'.app.rank) ∧
    ∀ now order visit s', MonitorStep s (.tick now order visit) s' → ∀ k f,
      s'.flows.lookup k = some f → f.app = .obfuscated →
        s'.peers.isTorrenting k.remoteIp = .ok false := by
  have hsound := sound_reachable h
  refine ⟨fun cs₁ cs₂ hi hroom₁ => hsound.converges hi hroom₁, ?_, ?_⟩
  · intro e s' hs k f f' hf hf'
    exact (sound_step hsound hs).2 k f.row f'.row (by simp [Inner.row, hf]) (by simp [Inner.row, hf'])
  · obtain ⟨⟨nodes, l, ht, -⟩, -⟩ := hsound
    exact fun now order visit s' hs k f hf happ => ht.not_torrenting hs hf happ

end

/-! ### An encrypted flow and a uTP flow of the same host -/

/-- The entropy of payloads whose bytes ascend: no byte comes twice, and that of `n` bytes is
`log2 n`. -/
abbrev ascending : Entropy :=
  ⟨fun p bar => (p.take 256).IsChain (· < ·) ∧ 2 ^ bar < (p.take 256).length ^ 10⟩

/-- From 10.0.0.1:40000 to 1.1.1.1:9999 over TCP, with 96 ascending bytes. -/
def cipherPacket : Captured := ⟨.up, [0x45, 0, 0, 136, 0, 1, 0, 0, 64, 6, 0, 0, 10, 0, 0, 1, 1, 1, 1, 1,
    0x9c, 0x40, 0x27, 0x0f, 0, 0, 0, 1, 0, 0, 0, 0, 0x50, 0x18, 0xff, 0xff, 0, 0, 0, 0] ++
  (List.range 96).map (fun i => UInt8.ofNat (i + 64)), 0⟩

/-- From 10.0.0.1:40000 to 1.1.1.1:9999 over UDP, a uTP SYN. -/
def utpPacket : Captured := ⟨.up, [0x45, 0, 0, 48, 0, 1, 0, 0, 64, 17, 0, 0, 10, 0, 0, 1, 1, 1, 1, 1,
    0x9c, 0x40, 0x27, 0x0f, 0, 28, 0, 0] ++ [0x41, 0, 0, 1] ++ List.replicate 16 0, 0⟩

def tcpKey : FlowKey := ⟨.v4 ⟨1, 1, 1, 1⟩, 9999, 40000, "TCP"⟩

def udpKey : FlowKey := ⟨.v4 ⟨1, 1, 1, 1⟩, 9999, 40000, "UDP"⟩

theorem cipher_flow : @Captured.flow ascending cipherPacket = some tcpKey := by decide +kernel

theorem utp_flow : @Captured.flow ascending utpPacket = some udpKey := by decide +kernel

theorem enumerates_iff {ks : List FlowKey} {t : Table FlowKey Flow} :
    Enumerates ks t ↔ ks.Nodup ∧ ks.toFinset = t.keys := lists_iff

theorem interleaved_both :
    @Interleaved ascending [cipherPacket, utpPacket] [utpPacket, cipherPacket] := by
  let := ascending
  intro k
  have hc := cipher_flow
  have hu := utp_flow
  by_cases hk : k = tcpKey
  · subst hk
    simp [ofFlow, hc, hu, tcpKey, udpKey]
  · by_cases hk' : k = udpKey
    · subst hk'
      simp [ofFlow, hc, hu, tcpKey, udpKey]
    · simp [ofFlow, hc, hu, Ne.symm hk, Ne.symm hk']

theorem room_both : @Room ascending (.new 0 0 PEER_ARENA) [cipherPacket, utpPacket] := by
  let := ascending
  exact ⟨by decide +kernel, by decide +kernel⟩

/-- After these packets and a tick that leaves the flows of `visit` live: the bytes that are merely
obfuscated, and whether the orders of the walks were orders of the table. -/
def obfuscatedAfter (cs : List Captured) (now : Instant) (visit : List FlowKey) :
    Checked (ℕ × Bool) := letI := ascending; do
  let s ← recordAll cs (.new 0 0 PEER_ARENA)
  let (s', _) ← s.tick saturating now [tcpKey, udpKey] visit
  return (s'.protoBytes.get "Obfuscated", [tcpKey, udpKey].toFinset = s.flows.keys ∧
    visit.toFinset = (s.flows.retain fun _ f => !Inner.isIdle now f).keys)

theorem tick_of_obfuscatedAfter (cs : List Captured) (now : Instant) (visit : List FlowKey) (n : ℕ)
    (hv : visit.Nodup) (h : obfuscatedAfter cs now visit = .ok (n, true)) :
    ∃ s s' records, @recordAll ascending cs (.new 0 0 PEER_ARENA) = .ok s ∧
      Ordered s (.tick now [tcpKey, udpKey] visit) ∧
      s.tick saturating now [tcpKey, udpKey] visit = .ok (s', records) ∧
      s'.protoBytes.get "Obfuscated" = n := by
  obtain ⟨s, hs, h⟩ := bind_eq_ok.mp h
  obtain ⟨⟨s', records⟩, ht, h⟩ := bind_eq_ok.mp h
  injection h with h
  injection h with hn hb
  obtain ⟨horder, hvisit⟩ := of_decide_eq_true hb
  exact ⟨s, s', records, hs, ⟨enumerates_iff.mpr ⟨by decide, horder⟩,
    enumerates_iff.mpr ⟨hv, hvisit⟩⟩, ht, hn⟩

/-- The encrypted flow is relabelled by the tick, or by its packet: the labels are the same. -/
theorem labels_converge_both : ∃ s₁ s₂,
    (∃ records order visit s, s.tick saturating 0 order visit = .ok (s₁, records) ∧
      @recordAll ascending [cipherPacket, utpPacket] (.new 0 0 PEER_ARENA) = .ok s) ∧
    (∃ records order visit s, s.tick saturating 0 order visit = .ok (s₂, records) ∧
      @recordAll ascending [utpPacket, cipherPacket] (.new 0 0 PEER_ARENA) = .ok s) ∧
    SameLabels s₁ s₂ := by
  let := ascending
  have hzero : ∀ c ∈ [cipherPacket, utpPacket], c.now = 0 := by decide +kernel
  have hfresh : ∀ cs, cs ⊆ [cipherPacket, utpPacket] → Fresh 0 cs := by
    intro cs hcs k c hc
    rw [hzero c (hcs (List.mem_of_mem_filter (List.mem_of_getLast? hc)))]
    decide
  obtain ⟨s₁, -, -, e₁, ho₁, -, -⟩ := tick_of_obfuscatedAfter
    [cipherPacket, utpPacket] 0 [tcpKey, udpKey] 0
    (by decide) (by decide +kernel)
  obtain ⟨s₂, -, -, e₂, ho₂, -, -⟩ := tick_of_obfuscatedAfter
    [utpPacket, cipherPacket] 0 [tcpKey, udpKey] 0
    (by decide) (by decide +kernel)
  obtain ⟨s₁', s₂', e₁', e₂', hticks⟩ :=
    (labels_converge reachable_new).1 _ _ interleaved_both room_both
  rw [e₁, Except.ok.injEq] at e₁'
  rw [e₂, Except.ok.injEq] at e₂'
  subst e₁' e₂'
  obtain ⟨t₁, t₂, records₁, records₂, h₁, h₂, -, hsame⟩ := hticks 0 _ _ _ _ ho₁ ho₂
  exact ⟨t₁, t₂, ⟨_, _, _, _, h₁, e₁⟩, ⟨_, _, _, _, h₂, e₂⟩,
    hsame (hfresh _ (by simp)) (hfresh _ (by simp))⟩

/-- A tick that comes when the flows are idle archives them under the labels they have by then: the
encrypted flow is obfuscated, or known for uTP, by the order of the packets. -/
theorem labels_differ_idle : ¬ ∀ s, @MonitorReachable ascending s → ∀ cs₁ cs₂,
    @Interleaved ascending cs₁ cs₂ → @Room ascending s cs₁ → ∀ s₁ s₂,
      @recordAll ascending cs₁ s = .ok s₁ → @recordAll ascending cs₂ s = .ok s₂ →
        ∀ now order₁ visit₁ order₂ visit₂, Ordered s₁ (.tick now order₁ visit₁) →
          Ordered s₂ (.tick now order₂ visit₂) → ∀ s₁' s₂' records₁ records₂,
            s₁.tick saturating now order₁ visit₁ = .ok (s₁', records₁) →
            s₂.tick saturating now order₂ visit₂ = .ok (s₂', records₂) → SameLabels s₁' s₂' := by
  intro h
  obtain ⟨s₁, s₁', records₁, e₁, ho₁, ht₁, hn₁⟩ := tick_of_obfuscatedAfter
    [cipherPacket, utpPacket] FLOW_IDLE_EVICT [] 136
    (by decide) (by decide +kernel)
  obtain ⟨s₂, s₂', records₂, e₂, ho₂, ht₂, hn₂⟩ := tick_of_obfuscatedAfter
    [utpPacket, cipherPacket] FLOW_IDLE_EVICT [] 0
    (by decide) (by decide +kernel)
  have hsame := h _ (@reachable_new ascending) _ _ interleaved_both room_both s₁ s₂ e₁ e₂
    _ _ _ _ _ ho₁ ho₂ s₁' s₂' records₁ records₂ ht₁ ht₂
  have hp := hsame.protoBytes "Obfuscated"
  rw [hn₁, hn₂] at hp
  cases hp

end Tunnel.Inspect
