import Tunnel.Inspect.Chain
import Tunnel.Inspect.Convergence
import Tunnel.Inspect.Snapshot

/-!
# Inspect — The published view is exact

Each row of the view is what the whole live table makes it, in whatever order the maps are walked,
and no row left out is heavier than one that is shown.

* `HostExact`, `PortExact`, `FlowExact`: what a row should say.  `Exact`: what a view should.
* `pass_eq`: the pass as folds over the flows it visits.
* `Filled`: each live flow has bytes, so its label has a counter.
* `Walks.Of`: the orders a view walks the maps in; every state has some (`Walks.exists_of`).
* `view_exact`: the law for every reachable state.
-/

namespace Tunnel.Inspect
open Support Text

/-! ### What a view should say -/

/-- A sum over the live flows that pass a test. -/
def Inner.sumOver (s : Inner) (p : FlowKey → Prop) [DecidablePred p] (g : Flow → ℕ) : ℕ :=
  Finmap.total (fun k f => if p k then g f else 0) s.flows

/-- A live flow. -/
def Inner.Live (s : Inner) (k : FlowKey) (f : Flow) : Prop := s.flows.lookup k = some f

def Flow.bytes (f : Flow) : ℕ := f.up + f.down

structure FlowExact (s : Inner) (now : Instant) (k : FlowKey) (row : FlowRow) : Prop where
  remote : row.remote = fmtEndpoint k.remoteIp k.remotePort
  proto : row.proto = k.l4
  localPort : row.localPort = k.localPort
  flow : ∃ f, s.Live k f ∧ row.app = f.app.label ∧ row.up = f.up ∧ row.down = f.down ∧
    row.idleMs = f.idleMs now

structure HostExact (s : Inner) (now : Instant) (ip : IpAddr) (row : HostRow) : Prop where
  address : row.ip = ip.display
  flows : row.flows = s.sumOver (·.remoteIp = ip) fun _ => 1
  up : row.up = s.sumOver (·.remoteIp = ip) Flow.up
  down : row.down = s.sumOver (·.remoteIp = ip) Flow.down
  /-- Unless all of them are idle for `u64::MAX` ms. -/
  idle : (∃ k f, s.Live k f ∧ k.remoteIp = ip ∧ f.idleMs now ≠ U64_MAX) →
    IsLeast {t | ∃ k f, s.Live k f ∧ k.remoteIp = ip ∧ f.idleMs now = t} row.idleMs
  app : ∃ k f, s.Live k f ∧ k.remoteIp = ip ∧ row.app = f.app.label ∧
    ∀ k' f', s.Live k' f' → k'.remoteIp = ip → f'.bytes ≤ f.bytes

structure PortExact (s : Inner) (service : String × UInt16) (row : PortRow) : Prop where
  port : row.port = service.2
  l4 : row.l4 = service.1
  flows : row.flows = s.sumOver (fun k => (k.l4, k.remotePort) = service) fun _ => 1
  up : row.up = s.sumOver (fun k => (k.l4, k.remotePort) = service) Flow.up
  down : row.down = s.sumOver (fun k => (k.l4, k.remotePort) = service) Flow.down

/-- A row for each flow, host and service of the live table, the heaviest of them shown, and the apps'
rows as many flows and bytes as there are. -/
structure Exact (s : Inner) (now : Instant) (v : TrafficSnapshot) : Prop where
  activeFlows : v.activeFlows = s.flows.size
  totals : v.totalUp = s.totalUp ∧ v.totalDown = s.totalDown
  flows : Ranked (FlowExact s now) FlowRow.bytes MAX_FLOWS (fun k => ∃ f, s.Live k f) v.flows
  hosts : Ranked (HostExact s now) HostRow.bytes MAX_HOSTS
    (fun ip => ∃ k f, s.Live k f ∧ k.remoteIp = ip) v.hosts
  ports : Ranked (PortExact s) PortRow.bytes MAX_PORTS
    (fun service => service.2 ≠ 0 ∧ ∃ k f, s.Live k f ∧ (k.l4, k.remotePort) = service) v.ports
  appFlows : (v.apps.map AppRow.flows).sum = v.activeFlows
  appBytes : (v.apps.map AppRow.bytes).sum = v.totalUp + v.totalDown

/-! ### The pass -/

/-- The flows a walk visits. -/
structure Visits (s : Inner) (ks : List FlowKey) (vs : List Visited) : Prop where
  keys : vs.map Visited.key = ks
  live : ∀ v ∈ vs, s.Live v.key v.flow

/-- The pass goes over the flows in order, and does not panic. -/
theorem pass_visits {s : Inner} {nodes : List (UInt32 × Host)} {l : HostList}
    (h : Simulates s.peers nodes l) (now : Instant) {ks : List FlowKey}
    (hks : ∀ k ∈ ks, s.flows.lookup k ≠ none) (r : Rollups) :
    ∃ vs, Visits s ks vs ∧ s.pass now ks r = .ok (vs.foldl (Rollups.visit now) r) := by
  induction ks generalizing r with
  | nil => exact ⟨[], ⟨rfl, by simp⟩, rfl⟩
  | cons k ks ih =>
      obtain ⟨f, hf⟩ := Option.ne_none_iff_exists'.mp (hks k List.mem_cons_self)
      obtain ⟨peer, hpeer, -⟩ := h.get k.remoteIp
      obtain ⟨vs, hvs, hp⟩ := ih (fun j hj => hks j (List.mem_cons_of_mem k hj))
        (r.visit now ⟨k, f, peer⟩)
      refine ⟨⟨k, f, peer⟩ :: vs, ⟨congrArg (k :: ·) hvs.keys, ?_⟩, ?_⟩
      · rintro v (- | ⟨-, hv⟩)
        · exact hf
        · exact hvs.live v hv
      · rw [Inner.pass, hf]
        dsimp only
        rw [hpeer, ok_bind, hp]
        rfl

/-- The pass makes a row of each flow, and one accumulator of each host and each service. -/
theorem foldl_visit (now : Instant) (vs : List Visited) :
    vs.foldl (Rollups.visit now) .empty = {
      flows := vs.map fun v => v.row now
      hosts := rollUp (·.key.remoteIp) Visited.newHost (Visited.addHost now) vs
      ports := rollUp Visited.service Visited.newPort Visited.addPort
        (vs.filter (·.key.remotePort ≠ 0))
      appFlows := countBy (·.flow.app.label) vs
      tcpFlows := vs.countP (·.key.l4 = "TCP")
      udpFlows := vs.countP (·.key.l4 = "UDP") } := by
  induction vs using List.reverseRecOn with
  | nil => rfl
  | append_singleton vs v ih =>
      rw [List.foldl_append, ih]
      simp only [List.foldl_cons, List.foldl_nil, Rollups.visit, rollUp, countBy, List.foldl_append,
        List.map_append, List.map_cons, List.map_nil, List.filter_append, List.countP_append]
      congr 1
      · by_cases h : v.key.remotePort = 0 <;> simp [h]
      · by_cases h : v.key.l4 = "TCP" <;> simp [h]
      · by_cases h : v.key.l4 = "UDP" <;> simp [h]

section
variable {s : Inner} {now : Instant} {ks : List FlowKey} {vs : List Visited}

theorem Visits.live_iff (h : Visits s ks vs) (hl : Lists ks s.flows) {k : FlowKey} {f : Flow} :
    s.Live k f ↔ ∃ v ∈ vs, v.key = k ∧ v.flow = f := by
  constructor
  · intro hf
    have hk : k ∈ vs.map Visited.key := h.keys ▸ (hl.2 k).mpr (by rw [hf]; exact Option.some_ne_none f)
    obtain ⟨v, hv, rfl⟩ := List.mem_map.mp hk
    exact ⟨v, hv, rfl, Option.some.inj ((h.live v hv).symm.trans hf)⟩
  · rintro ⟨v, hv, rfl, rfl⟩
    exact h.live v hv

theorem Visits.exists_iff (h : Visits s ks vs) (hl : Lists ks s.flows) (P : FlowKey → Flow → Prop) :
    (∃ k f, s.Live k f ∧ P k f) ↔ ∃ v ∈ vs, P v.key v.flow := by
  constructor
  · rintro ⟨k, f, hf, hP⟩
    obtain ⟨v, hv, rfl, rfl⟩ := (h.live_iff hl).mp hf
    exact ⟨v, hv, hP⟩
  · rintro ⟨v, hv, hP⟩
    exact ⟨v.key, v.flow, h.live v hv, hP⟩

theorem Visits.sumOver_eq (h : Visits s ks vs) (hl : Lists ks s.flows) (p : FlowKey → Prop)
    [DecidablePred p] (g : Flow → ℕ) :
    s.sumOver p g = ((vs.filter (p ·.key)).map (g ·.flow)).sum := by
  rw [Inner.sumOver, total_eq_sum_of_lists hl, sum_map_filter, ← h.keys, List.map_map]
  refine congrArg List.sum (List.map_congr_left fun v hv => ?_)
  have hf : s.flows.lookup v.key = some v.flow := h.live v hv
  simp [hf]

/-! ### The accumulators -/

/-- What the flows to a host make of its accumulator. -/
structure HostMade (now : Instant) (vs : List Visited) (a : HostAcc) : Prop where
  flows : a.flows = (vs.map fun _ => 1).sum
  up : a.up = (vs.map (·.flow.up)).sum
  down : a.down = (vs.map (·.flow.down)).sum
  idle : IsLeast {t | ∃ v ∈ vs, v.flow.idleMs now = t} a.idleMs
  top : ∃ v ∈ vs, a.app = v.flow.app.label ∧ a.topBytes = v.bytes
  heaviest : ∀ v ∈ vs, v.bytes ≤ a.topBytes

theorem Flow.idleMs_le (f : Flow) (now : Instant) : f.idleMs now ≤ U64_MAX :=
  Nat.le_of_lt_succ (Nat.mod_lt _ (Nat.succ_pos _))

/-- The label is that of the heaviest so far, whichever it is. -/
theorem Visited.addHost_eq (now : Instant) (v : Visited) (a : HostAcc) :
    v.addHost now a = { a with
      app := if a.topBytes ≤ v.bytes then v.flow.app.label else a.app
      flows := a.flows + 1
      up := a.up + v.flow.up
      down := a.down + v.flow.down
      rate := a.rate ++ [v.flow.rate]
      idleMs := min a.idleMs (v.flow.idleMs now)
      topBytes := max a.topBytes v.bytes } := by
  unfold addHost
  dsimp only
  split
  · next h => rw [max_eq_right h]
  · next h => rw [max_eq_left (Nat.le_of_not_le h)]

/-- The first flow to a host. -/
theorem hostMade_new (now : Instant) (v : Visited) : HostMade now [v] (v.addHost now v.newHost) := by
  rw [v.addHost_eq]
  constructor
  case flows | up | down => simp [Visited.newHost]
  case idle => simp [Visited.newHost, v.flow.idleMs_le now]
  case top => exact ⟨v, by simp [Visited.newHost]⟩
  case heaviest => simp

/-- One more. -/
theorem HostMade.add {a : HostAcc} (h : HostMade now vs a) (v : Visited) :
    HostMade now (vs ++ [v]) (v.addHost now a) := by
  obtain ⟨w, hw, happ, htop⟩ := h.top
  rw [v.addHost_eq]
  constructor
  case flows => simp [h.flows]
  case up => simp [h.up]
  case down => simp [h.down]
  case idle =>
    have hidle : {t | ∃ u ∈ vs ++ [v], u.flow.idleMs now = t} =
        insert (v.flow.idleMs now) {t | ∃ u ∈ vs, u.flow.idleMs now = t} := by
      ext t
      simp [or_and_right, exists_or, or_comm, eq_comm]
    rw [hidle, min_comm]
    exact h.idle.insert _
  case top =>
    by_cases hle : a.topBytes ≤ v.bytes
    · exact ⟨v, by simp, if_pos hle, max_eq_right hle⟩
    · exact ⟨w, by simp [hw], (if_neg hle).trans happ, (max_eq_left (Nat.le_of_not_le hle)).trans htop⟩
  case heaviest =>
    intro u hu
    rcases List.mem_append.mp hu with hu | hu
    · exact (h.heaviest u hu).trans (Nat.le_max_left _ _)
    · rw [List.mem_singleton.mp hu]
      exact Nat.le_max_right _ _

/-- What the flows of a service make of its accumulator. -/
structure PortMade (vs : List Visited) (a : PortAcc) : Prop where
  flows : a.flows = (vs.map fun _ => 1).sum
  up : a.up = (vs.map (·.flow.up)).sum
  down : a.down = (vs.map (·.flow.down)).sum

theorem portMade_new (v : Visited) : PortMade [v] (v.addPort v.newPort) := by
  constructor <;> simp [Visited.addPort, Visited.newPort]

theorem PortMade.add {a : PortAcc} (h : PortMade vs a) (v : Visited) :
    PortMade (vs ++ [v]) (v.addPort a) := by
  constructor <;> simp [Visited.addPort, h.flows, h.up, h.down]

/-! ### The rows -/

theorem sum_rowsOf {K A R : Type} [DecidableEq K] (row : K → A → R) (g : R → ℕ) (t : Table K A)
    (ks : List K) : ((rowsOf row t ks).map g).sum =
      (ks.map fun k => ((t.lookup k).map fun a => g (row k a)).getD 0).sum := by
  unfold rowsOf
  induction ks with
  | nil => rfl
  | cons k ks ih => cases h : t.lookup k <;> simp [h, ih]

theorem forall₂_rowsOf {K A R : Type} [DecidableEq K] {row : K → A → R} {t : Table K A} {ks : List K}
    {P : K → R → Prop} (h : ∀ k ∈ ks, ∃ a, t.lookup k = some a ∧ P k (row k a)) :
    List.Forall₂ P ks (rowsOf row t ks) := by
  induction ks with
  | nil => exact .nil
  | cons k ks ih =>
      obtain ⟨a, ha, hP⟩ := h k List.mem_cons_self
      rw [rowsOf, List.filterMap_cons, ha]
      exact .cons hP (ih fun j hj => h j (List.mem_cons_of_mem k hj))

/-- Each host of a live flow has an exact row. -/
theorem Visits.hostRows (h : Visits s ks vs) (hl : Lists ks s.flows) {hosts : List IpAddr}
    (hh : Lists hosts (rollUp (·.key.remoteIp) Visited.newHost (Visited.addHost now) vs)) :
    Ranked (HostExact s now) HostRow.bytes MAX_HOSTS
      (fun ip => ∃ k f, s.Live k f ∧ k.remoteIp = ip)
      (heaviest HostRow.bytes MAX_HOSTS (rowsOf HostAcc.row
        (rollUp (·.key.remoteIp) Visited.newHost (Visited.addHost now) vs) hosts)) := by
  have hspec := rollUp_spec (·.key.remoteIp) (P := HostMade now) (hostMade_new now)
    (fun _ v _ ha => ha.add v) vs
  refine ranked_heaviest hh.1 (fun ip => ?_) (forall₂_rowsOf fun ip hip => ?_) _ _
  · rw [hh.2, (hspec ip).1, h.exists_iff hl]
  obtain ⟨a, ha⟩ := Option.ne_none_iff_exists'.mp ((hh.2 ip).mp hip)
  have hm := (hspec ip).2 a ha
  have hsum := h.sumOver_eq hl (·.remoteIp = ip)
  refine ⟨a, ha, ?_⟩
  constructor
  case address => rfl
  case flows => exact hm.flows.trans (hsum fun _ => 1).symm
  case up => exact hm.up.trans (hsum Flow.up).symm
  case down => exact hm.down.trans (hsum Flow.down).symm
  case idle =>
    rintro ⟨k, f, hf, hk, hne⟩
    have hidle : IsLeast {t | ∃ k f, s.Live k f ∧ k.remoteIp = ip ∧ f.idleMs now = t} a.idleMs := by
      refine (congrArg (IsLeast · a.idleMs) (Set.ext fun t => ?_)).mp hm.idle
      rw [Set.mem_ofPred_eq, Set.mem_ofPred_eq, h.exists_iff hl fun k f =>
        k.remoteIp = ip ∧ f.idleMs now = t]
      simp [and_assoc]
    have hlt : a.idleMs ≠ U64_MAX := fun he => by
      have hle := hidle.2 ⟨k, f, hf, hk, rfl⟩
      have hle' := f.idleMs_le now
      omega
    rw [HostAcc.row, if_neg hlt]
    exact hidle
  case app =>
    obtain ⟨v, hv, happ, htop⟩ := hm.top
    obtain ⟨hv, hip⟩ := List.mem_filter.mp hv
    refine ⟨v.key, v.flow, h.live v hv, of_decide_eq_true hip, happ, fun k' f' hf' hk' => ?_⟩
    obtain ⟨w, hw, rfl, rfl⟩ := (h.live_iff hl).mp hf'
    exact (hm.heaviest w (List.mem_filter.mpr ⟨hw, decide_eq_true hk'⟩)).trans_eq htop

/-- Each service of a live flow has an exact row. -/
theorem Visits.portRows (h : Visits s ks vs) (hl : Lists ks s.flows)
    {ports : List (String × UInt16)} (hp : Lists ports (rollUp Visited.service Visited.newPort
      Visited.addPort (vs.filter (·.key.remotePort ≠ 0)))) :
    Ranked (PortExact s) PortRow.bytes MAX_PORTS
      (fun service => service.2 ≠ 0 ∧ ∃ k f, s.Live k f ∧ (k.l4, k.remotePort) = service)
      (heaviest PortRow.bytes MAX_PORTS (rowsOf PortAcc.row (rollUp Visited.service Visited.newPort
        Visited.addPort (vs.filter (·.key.remotePort ≠ 0))) ports)) := by
  have hspec := rollUp_spec Visited.service portMade_new (fun _ v _ ha => ha.add v)
    (vs.filter (·.key.remotePort ≠ 0))
  have hall : ∀ service : String × UInt16,
      (∃ v ∈ vs.filter (·.key.remotePort ≠ 0), v.service = service) ↔
        service.2 ≠ 0 ∧ ∃ k f, s.Live k f ∧ (k.l4, k.remotePort) = service := by
    intro service
    rw [h.exists_iff hl fun k _ => (k.l4, k.remotePort) = service]
    constructor
    · rintro ⟨v, hv, rfl⟩
      obtain ⟨hv, hne⟩ := List.mem_filter.mp hv
      exact ⟨of_decide_eq_true hne, v, hv, rfl⟩
    · rintro ⟨hne, v, hv, rfl⟩
      exact ⟨v, List.mem_filter.mpr ⟨hv, decide_eq_true hne⟩, rfl⟩
  refine ranked_heaviest hp.1 (fun service => ?_) (forall₂_rowsOf fun service hs => ?_) _ _
  · rw [hp.2, (hspec service).1, hall]
  obtain ⟨a, ha⟩ := Option.ne_none_iff_exists'.mp ((hp.2 service).mp hs)
  have hm := (hspec service).2 a ha
  have hne : service.2 ≠ 0 := ((hall service).mp ((hspec service).1.mp ((hp.2 service).mp hs))).1
  -- a flow of the service is one with its port, which is not zero
  have hfilter : (vs.filter (·.key.remotePort ≠ 0)).filter (·.service = service) =
      vs.filter fun v => (v.key.l4, v.key.remotePort) = service := by
    rw [List.filter_filter]
    refine List.filter_congr fun v _ => ?_
    by_cases hv : v.service = service
    · subst hv
      simpa [Visited.service] using hne
    · rw [decide_eq_false hv, Bool.false_and]
      exact (decide_eq_false hv).symm
  rw [hfilter] at hm
  have hsum := h.sumOver_eq hl fun k => (k.l4, k.remotePort) = service
  refine ⟨a, ha, ?_⟩
  constructor
  case port | l4 => rfl
  case flows => exact hm.flows.trans (hsum fun _ => 1).symm
  case up => exact hm.up.trans (hsum Flow.up).symm
  case down => exact hm.down.trans (hsum Flow.down).symm

/-- Each live flow has a row. -/
theorem Visits.flowRows (h : Visits s ks vs) (hl : Lists ks s.flows) :
    Ranked (FlowExact s now) FlowRow.bytes MAX_FLOWS (fun k => ∃ f, s.Live k f)
      (heaviest FlowRow.bytes MAX_FLOWS (vs.map fun v => v.row now)) := by
  refine ranked_heaviest hl.1 (fun k => ?_) ?_ _ _
  · rw [hl.2, Option.ne_none_iff_exists']
    rfl
  · rw [← h.keys, List.forall₂_map_left_iff, List.forall₂_map_right_iff, List.forall₂_same]
    exact fun v hv => ⟨rfl, rfl, rfl, v.flow, h.live v hv, rfl, rfl, rfl, rfl⟩

/-! ### Labels -/

/-- Each live flow has bytes. -/
def Filled (s : Inner) : Prop := ∀ k r, s.row k = some r → 0 < r.bytes

/-- The label of a flow with bytes has a counter. -/
theorem Filled.label {a : Audited} (h : Filled a.inner) (hc : Conserved a) {k : FlowKey} {f : Flow}
    (hf : a.inner.Live k f) : a.inner.protoBytes.lookup f.app.label ≠ none := by
  have hlookup : a.inner.flows.lookup k = some f := hf
  have hpos : 0 < f.up + f.down := h k f.row (by rw [Inner.row, hlookup]; rfl)
  have hbytes := hc.label f.app.label
  rw [liveBytes, Finmap.total_of_lookup _ hlookup, share, if_pos rfl] at hbytes
  intro hn
  rw [Counters.get, hn, Option.getD_none] at hbytes
  omega

/-- The live flows by label are as many as there are, and the bytes all that were seen. -/
theorem appRows_sum {a : Audited} {vs : List Visited} {ks : List FlowKey} {apps : List String}
    (hc : Conserved a) (hfilled : Filled a.inner) (hv : Visits a.inner ks vs)
    (hks : Lists ks a.inner.flows) (ha : Lists apps a.inner.protoBytes) :
    let rows := (rowsOf (fun name bytes =>
      (⟨name, bytes, (countBy (·.flow.app.label) vs).get name⟩ : AppRow)) a.inner.protoBytes
        apps).mergeSort fun r r' => r'.bytes ≤ r.bytes
    (rows.map AppRow.flows).sum = a.inner.flows.size ∧
      (rows.map AppRow.bytes).sum = a.inner.totalUp + a.inner.totalDown := by
  intro rows
  have hperm := List.mergeSort_perm (rowsOf (fun name bytes =>
      (⟨name, bytes, (countBy (·.flow.app.label) vs).get name⟩ : AppRow)) a.inner.protoBytes
        apps) fun r r' => r'.bytes ≤ r.bytes
  rw [(hperm.map AppRow.flows).sum_eq, (hperm.map AppRow.bytes).sum_eq, sum_rowsOf, sum_rowsOf]
  constructor
  · have hcount : ∀ name ∈ apps, ((a.inner.protoBytes.lookup name).map fun _ =>
        (countBy (·.flow.app.label) vs).get name).getD 0 =
          (vs.map (·.flow.app.label)).count name := by
      intro name hname
      obtain ⟨n, hn⟩ := Option.ne_none_iff_exists'.mp ((ha.2 name).mp hname)
      rw [hn, Option.map_some, Option.getD_some, get_countBy]
    have hsub : vs.map (·.flow.app.label) ⊆ apps := by
      intro name hname
      obtain ⟨v, hmem, rfl⟩ := List.mem_map.mp hname
      exact (ha.2 _).mpr (hfilled.label hc (hv.live v hmem))
    rw [List.map_congr_left hcount, sum_count_of_subset ha.1 hsub, List.length_map,
      size_eq_length_of_lists hks, ← hv.keys, List.length_map]
  · rw [← hc.total, Counters.sum, total_eq_sum_of_lists ha]

end

section
variable [Entropy]

theorem parse_len {pkt : Bytes} {p : ParsedPacket} (h : parse pkt = .ok (some p)) : 0 < p.len := by
  obtain ⟨hlen, srcIp, dstIp, hf | ⟨proto, off, -, -, hf⟩⟩ := parse_finish h
  · obtain ⟨r, hr, hspec⟩ := finish_spec srcIp dstIp 44 [] pkt.length
    rw [hf] at hr
    cases hr
    rwa [(hspec.addrs p rfl).2.2]
  · obtain ⟨r, hr, hspec⟩ := finish_spec srcIp dstIp proto (pkt.drop off) pkt.length
    rw [hf] at hr
    cases hr
    rwa [(hspec.addrs p rfl).2.2]

/-- No event takes bytes from a flow, and a flow that opens has some. -/
theorem filled_step {s s' : Inner} {e : MonitorEvent} (hs : Sound s) (h : Filled s)
    (he : MonitorStep s e s') : Filled s' := by
  obtain ⟨⟨nodes, l, ht, hcap⟩, -⟩ := hs
  have hlen := ht.length_lt hcap
  have hap := he.apply
  intro k r hk
  cases e with
  | record dir pkt now =>
      obtain ⟨parsed, hp, hap⟩ := bind_eq_ok.mp hap
      cases parsed with
      | none =>
          cases hap
          exact h k r hk
      | some p =>
          by_cases hd : s.declines dir p
          · have hd' : (s.count dir p.len).declines dir p := by cases dir <;> exact hd
            dsimp only [Inner.recordParsed] at hap
            rw [if_pos hd'] at hap
            cases hap
            have hcount : s.row k = some r := by cases dir <;> exact hk
            exact h k r hcount
          · obtain ⟨s₁, -, e₁, -, hheard⟩ := ht.recordOpen now hd fun _ => hlen
            dsimp only at hap
            rw [e₁] at hap
            cases hap
            rw [hheard.row] at hk
            split at hk
            · cases hk
              exact Nat.add_pos_right _ (parse_len hp)
            · exact h k r hk
  | tick now order visit =>
      obtain ⟨⟨s₁, records⟩, e₁, hap⟩ := bind_eq_ok.mp hap
      cases hap
      obtain ⟨s₂, records₂, -, l', e₂, -, -, hrow⟩ := ht.tick he.ordered
      rw [e₁] at e₂
      cases e₂
      rw [hrow, Option.map_eq_some_iff] at hk
      obtain ⟨r₁, hr₁, rfl⟩ := hk
      exact h k r₁ (Option.filter_eq_some_iff.mp hr₁).1
  | noteFlow tcp remoteIp remotePort localPort status =>
      cases hap
      rw [(s.noteFlow_rows tcp remoteIp remotePort localPort status).2] at hk
      exact h k r hk
  | markOwn remoteIp remotePort localPort tcp now =>
      cases hap
      rw [(s.markOwn_rows remoteIp remotePort localPort tcp now).2] at hk
      exact h k r hk
  | enrichCandidate =>
      obtain ⟨⟨found, s₁⟩, hc, hap⟩ := bind_eq_ok.mp hap
      cases hap
      rw [Inner.row, (Inner.enrichCandidate_unmoved hc).1] at hk
      exact h k r hk
  | enrich ip info =>
      rw [Inner.row, (Inner.enrich_unmoved hap).1] at hk
      exact h k r hk

/-! ### The view -/

/-- A view walks the maps in orders of theirs. -/
structure Walks.Of (s : Inner) (now : Instant) (w : Walks) : Prop where
  flows : Lists w.flows s.flows
  apps : Lists w.apps s.protoBytes
  rollups : ∀ r, s.pass now w.flows .empty = .ok r →
    Lists w.hosts r.hosts ∧ Lists w.ports r.ports

omit [Entropy] in
/-- Whatever the maps hold, there are orders to walk them in. -/
theorem Walks.exists_of (s : Inner) (now : Instant) : ∃ w, Walks.Of s now w := by
  obtain ⟨ks, hks⟩ := exists_lists s.flows
  obtain ⟨apps, happs⟩ := exists_lists s.protoBytes
  cases hp : s.pass now ks .empty with
  | error e =>
      refine ⟨⟨ks, [], [], apps⟩, hks, happs, fun r hr => ?_⟩
      dsimp only at hr
      rw [hp] at hr
      cases hr
  | ok r =>
      obtain ⟨hosts, hhosts⟩ := exists_lists r.hosts
      obtain ⟨ports, hports⟩ := exists_lists r.ports
      refine ⟨⟨ks, hosts, ports, apps⟩, hks, happs, fun r' hr' => ?_⟩
      dsimp only at hr'
      rw [hp] at hr'
      cases hr'
      exact ⟨hhosts, hports⟩

omit [Entropy] in
/-- What a view says of a state that is sound and filled. -/
theorem buildSnapshot_exact {s : Inner} (hs : Sound s) (hf : Filled s) {now : Instant} {w : Walks}
    (hw : Walks.Of s now w) : ∃ v, buildSnapshot s now w = .ok v ∧ Exact s now v := by
  obtain ⟨⟨nodes, l, ht, -⟩, a, hc, rfl⟩ := hs
  obtain ⟨vs, hvs, hp⟩ := pass_visits ht.simulates now (fun k => (hw.flows.2 k).mp) .empty
  rw [foldl_visit] at hp
  obtain ⟨hhosts, hports⟩ := hw.rollups _ hp
  obtain ⟨hflows, hbytes⟩ := appRows_sum hc hf hvs hw.flows hw.apps
  refine ⟨_, by rw [buildSnapshot, hp, ok_bind]; rfl, ?_⟩
  constructor
  case activeFlows => rfl
  case totals => exact ⟨rfl, rfl⟩
  case flows => exact hvs.flowRows hw.flows
  case hosts => exact hvs.hostRows hw.flows hhosts
  case ports => exact hvs.portRows hw.flows hports
  case appFlows => exact hflows
  case appBytes => exact hbytes

theorem filled_reachable {s : Inner} (h : MonitorReachable s) : Filled s := by
  have hboth : Sound s ∧ Filled s := by
    refine h.invariant (I := fun s => Sound s ∧ Filled s) ?_
      fun _ _ _ hs he => ⟨(sound_step hs.1 he).1, filled_step hs.1 hs.2 he⟩
    rintro s hstart
    refine ⟨sound_reachable (.of_start hstart), ?_⟩
    obtain ⟨now, wallBase, arena, -, -, rfl⟩ := hstart
    intro k r hk
    cases hk
  exact hboth.2

/-- **The published view is exact.**  In every reachable state, whatever the orders of the maps, the
view is built and its rows are exact.  A flow that is live after a tick was heard in the last 90 s, so in
a view that is published every host's idle time is the least of its flows'. -/
theorem view_exact {s : Inner} (h : MonitorReachable s) :
    (∀ now w, Walks.Of s now w → ∃ v, buildSnapshot s now w = .ok v ∧ Exact s now v) ∧
    ∀ now order visit s', MonitorStep s (.tick now order visit) s' → ∀ k f, s'.Live k f →
      f.idleMs now < 90000 := by
  have hs := sound_reachable h
  refine ⟨fun now w hw => buildSnapshot_exact hs (filled_reachable h) hw, ?_⟩
  intro now order visit s' he k f hf
  obtain ⟨⟨nodes, l, ht, -⟩, -⟩ := hs
  obtain ⟨s₁, records, -, l', e₁, -, -, hrow⟩ := ht.tick he.ordered
  have hap := he.apply
  rw [Inner.apply, e₁] at hap
  cases hap
  have hk : s₁.row k = some f.row := by
    rw [Inner.row, show s₁.flows.lookup k = some f from hf]
    rfl
  rw [hrow, Option.map_eq_some_iff] at hk
  obtain ⟨r, hr, hf⟩ := hk
  have hidle := (Option.filter_eq_some_iff.mp hr).2
  have hseen : r.lastSeen = f.lastSeen := congrArg Row.lastSeen hf
  simp only [Row.isIdle, hseen, Bool.not_eq_true', decide_eq_false_iff_not, Nat.not_le] at hidle
  refine (Nat.mod_le _ _).trans_lt ((Nat.div_lt_iff_lt_mul (by decide)).mpr ?_)
  exact hidle

end

/-! ### More services than a view shows -/

/-- `aSyn`, to another port. -/
def synTo (port : UInt16) : Captured := ⟨.up, aSyn.take 22 ++ beBytes port ++ aSyn.drop 24, 0⟩

/-- One port more than a view has rows for. -/
def manyPorts : List UInt16 := (List.range 65).map fun i => UInt16.ofNat (9900 + i)

def manyWalks : Walks where
  flows := manyPorts.map fun port => ⟨.v4 ⟨1, 1, 1, 1⟩, port, 40000, "TCP"⟩
  hosts := [.v4 ⟨1, 1, 1, 1⟩]
  ports := manyPorts.map fun port => ("TCP", port)
  apps := ["Other"]

/-- After a packet to each port: the flows there are, the rows of the services and of the hosts, and
whether the maps are walked in orders of theirs. -/
def manySyns : Checked (ℕ × ℕ × List ℕ × Bool) := letI := nothingRandom; do
  let s ← recordAll (manyPorts.map synTo) (.new 0 0 PEER_ARENA)
  let r ← s.pass 0 manyWalks.flows .empty
  return (s.flows.size, (rowsOf PortAcc.row r.ports manyWalks.ports).length,
    (rowsOf HostAcc.row r.hosts manyWalks.hosts).map HostRow.flows,
    manyWalks.flows.toFinset = s.flows.keys ∧ manyWalks.apps.toFinset = s.protoBytes.keys ∧
      manyWalks.hosts.toFinset = r.hosts.keys ∧ manyWalks.ports.toFinset = r.ports.keys)

/-- The host's row counts all 65 of its flows; one of the services has no row. -/
theorem view_exact_many : ∃ s v, s.flows.size = 65 ∧ buildSnapshot s 0 manyWalks = .ok v ∧
    Exact s 0 v ∧ v.ports.length = 64 ∧ v.hosts.map HostRow.flows = [65] := by
  let := nothingRandom
  have hmany : manySyns = .ok (65, 65, [65], true) := by decide +kernel
  obtain ⟨s, hs, h⟩ := bind_eq_ok.mp hmany
  obtain ⟨r, hr, h⟩ := bind_eq_ok.mp h
  injection h with h
  obtain ⟨hsize, hports, hhosts, hwalks⟩ : s.flows.size = 65 ∧
      (rowsOf PortAcc.row r.ports manyWalks.ports).length = 65 ∧
      (rowsOf HostAcc.row r.hosts manyWalks.hosts).map HostRow.flows = [65] ∧ _ := by
    simpa only [Prod.mk.injEq] using h
  obtain ⟨hf, ha, hh, hp⟩ := of_decide_eq_true hwalks
  have hw : Walks.Of s 0 manyWalks := by
    refine ⟨lists_iff.mpr ⟨by decide +kernel, hf⟩, lists_iff.mpr ⟨by decide +kernel, ha⟩,
      fun r' hr' => ?_⟩
    rw [hr] at hr'
    cases hr'
    exact ⟨lists_iff.mpr ⟨by decide +kernel, hh⟩, lists_iff.mpr ⟨by decide +kernel, hp⟩⟩
  have hreach : MonitorReachable s := reachable_new.recordAll hs
  obtain ⟨v, hv, hexact⟩ := (view_exact hreach).1 0 manyWalks hw
  refine ⟨s, v, hsize, hv, hexact, ?_⟩
  rw [buildSnapshot, hr, ok_bind] at hv
  cases hv
  constructor
  · -- the sort is not computed: it keeps the length, and one row as it is
    change (heaviest PortRow.bytes MAX_PORTS _).length = 64
    rw [heaviest, List.length_take, List.length_mergeSort, hports]
    rfl
  · change (heaviest HostRow.bytes MAX_HOSTS _).map HostRow.flows = [65]
    obtain ⟨row, hrow, -⟩ := List.map_eq_singleton_iff.mp hhosts
    rw [hrow] at hhosts
    rw [hrow, heaviest, List.mergeSort_singleton]
    exact hhosts

end Tunnel.Inspect
