import Tunnel.Inspect.Monitor

/-!
# Inspect — No byte is lost between the labels

The bytes counted under a label are those of the live flows that carry it, those of every record
archived with it, and those of the packets that were given no row.  A label that changes takes its
flow's bytes with it, whole.

* `Holds`: a counter table that holds a flow's bytes under its label.  `relabel_spec`,
  `upgrade_spec`, `correlate_spec`: a flow that changes its label, in the middle of an operation.
* `Balanced`: the same of the live table.  `recordParsed_spec`, `sweep_spec`, `refreshAll_spec`.
* `bytes_conserved`: every reachable state, and no subtraction in it saturates.
-/

namespace Tunnel.Inspect
open Support

/-! ### What is counted under a label -/

/-- The bytes of a flow, under its label. -/
def share (f : Flow) (label : String) : ℕ := if f.app.label = label then f.up + f.down else 0

def liveBytes (flows : Table FlowKey Flow) (label : String) : ℕ :=
  Finmap.total (fun _ f => share f label) flows

def recordBytes (r : FlowRecord) (label : String) : ℕ := if r.app = label then r.up + r.down else 0

def archivedBytes (records : List FlowRecord) (label : String) : ℕ :=
  (records.map fun r => recordBytes r label).sum

theorem archivedBytes_append (rs rs' : List FlowRecord) (label : String) :
    archivedBytes (rs ++ rs') label = archivedBytes rs label + archivedBytes rs' label := by
  simp [archivedBytes]

/-! ### One flow -/

/-- The counters hold the flow's bytes under its label, and `rest` besides. -/
def Holds (f : Flow) (protoBytes : Counters String) (rest : String → ℕ) : Prop :=
  ∀ label, protoBytes.get label = share f label + rest label

/-- A flow changes its label and nothing else of what is counted. -/
structure Moved (f f' : Flow) (protoBytes protoBytes' : Counters String) (rest : String → ℕ) :
    Prop where
  holds : Holds f' protoBytes' rest
  up : f'.up = f.up
  down : f'.down = f.down
  sum : protoBytes'.sum = protoBytes.sum

variable {f f' f'' : Flow} {protoBytes protoBytes' protoBytes'' : Counters String}
  {peers peers' : PeerArena} {rest : String → ℕ} {sub : Subtraction}

theorem Moved.refl (h : Holds f protoBytes rest) : Moved f f protoBytes protoBytes rest :=
  ⟨h, rfl, rfl, rfl⟩

/-- The bytes that move are there. -/
theorem relabel_spec (h : Holds f protoBytes rest) (app : AppProto) :
    relabel exact f protoBytes app = relabel saturating f protoBytes app ∧
      ∃ f' protoBytes', relabel saturating f protoBytes app = .ok (f', protoBytes') ∧
        Moved f f' protoBytes protoBytes' rest := by
  have hle : f.up + f.down ≤ protoBytes.get f.app.label := by
    rw [h, share, if_pos rfl]
    exact Nat.le_add_right _ _
  unfold relabel
  dsimp only
  split
  · have he : exact (protoBytes.get f.app.label) (f.up + f.down) =
        saturating (protoBytes.get f.app.label) (f.up + f.down) := if_pos hle
    rw [he]
    refine ⟨rfl, _, _, rfl, fun label => ?_, rfl, rfl, Counters.sum_move _ _ _ hle⟩
    have hm := Counters.get_move protoBytes f.app.label app.label label hle
    have hl := h label
    unfold share at hl ⊢
    dsimp only
    simp only [eq_comm (a := label)] at hm
    omega
  · next hz =>
      refine ⟨rfl, _, _, rfl, fun label => ?_, rfl, rfl, rfl⟩
      rw [h label]
      unfold share
      dsimp only
      have : f.up + f.down = 0 := by omega
      rw [this, ite_self, ite_self]

theorem upgrade_spec (h : Holds f protoBytes rest) (peers : PeerArena) (ip : IpAddr)
    (app : AppProto) (now : Instant) :
    upgrade exact f protoBytes peers ip app now = upgrade saturating f protoBytes peers ip app now ∧
      ∀ f' protoBytes' peers',
        upgrade saturating f protoBytes peers ip app now = .ok (f', protoBytes', peers') →
          Moved f f' protoBytes protoBytes' rest := by
  obtain ⟨he, f₁, protoBytes₁, e₁, hm⟩ := relabel_spec h app
  unfold upgrade
  split
  · rw [he, e₁]
    refine ⟨rfl, fun f' protoBytes' peers' e => ?_⟩
    rw [ok_bind] at e
    obtain ⟨⟨id, peers₁⟩, -, e⟩ := bind_eq_ok.mp e
    cases e
    exact hm
  · refine ⟨rfl, fun f' protoBytes' peers' e => ?_⟩
    cases e
    exact .refl h

theorem correlate_spec (h : Holds f protoBytes rest) (peers : PeerArena) (ip : IpAddr) :
    correlate exact f protoBytes peers ip = correlate saturating f protoBytes peers ip ∧
      ∀ f' protoBytes', correlate saturating f protoBytes peers ip = .ok (f', protoBytes') →
        Moved f f' protoBytes protoBytes' rest := by
  obtain ⟨he, f₁, protoBytes₁, e₁, hm⟩ := relabel_spec h .obfuscatedBt
  unfold correlate
  split
  · rw [he, e₁]
    refine ⟨rfl, fun f' protoBytes' e => ?_⟩
    obtain ⟨torrenting, -, e⟩ := bind_eq_ok.mp e
    split at e
    · cases e
      exact hm
    · cases e
      exact .refl h
  · refine ⟨rfl, fun f' protoBytes' e => ?_⟩
    cases e
    exact .refl h

/-! ### The live table -/

/-- The counters hold the bytes of every flow of the table, and `rest` besides. -/
def Balanced (flows : Table FlowKey Flow) (protoBytes : Counters String) (rest : String → ℕ) :
    Prop := ∀ label, protoBytes.get label = liveBytes flows label + rest label

/-- What a table holds besides one flow. -/
def besides (flows : Table FlowKey Flow) (key : FlowKey) (rest : String → ℕ) (label : String) : ℕ :=
  liveBytes (flows.erase key) label + rest label

variable {flows : Table FlowKey Flow} {key : FlowKey}

/-- One flow of a balanced table. -/
theorem Balanced.holds (h : Balanced flows protoBytes rest) (hf : flows.lookup key = some f) :
    Holds f protoBytes (besides flows key rest) := by
  intro label
  rw [h label, liveBytes, Finmap.total_of_lookup _ hf, Nat.add_assoc]
  rfl

/-- A flow with no bytes joins. -/
theorem Balanced.holds_new (h : Balanced flows protoBytes rest) (hf : flows.lookup key = none)
    (hz : f.up + f.down = 0) : Holds f protoBytes (besides flows key rest) := by
  intro label
  rw [h label, besides, Finmap.erase_of_lookup_none hf, share, hz, ite_self, Nat.zero_add]

/-- The flow goes back. -/
theorem Holds.balanced (h : Holds f protoBytes (besides flows key rest)) :
    Balanced (flows.insert key f) protoBytes rest := by
  intro label
  rw [h label, liveBytes, Finmap.total_insert, besides, Nat.add_assoc]
  rfl

/-- A flow changes in what is not counted. -/
theorem Holds.congr (h : Holds f protoBytes rest) (ha : f'.app = f.app) (hu : f'.up = f.up)
    (hd : f'.down = f.down) : Holds f' protoBytes rest := by
  intro label
  rw [h label, share, share, ha, hu, hd]

/-- A packet is counted under the label its flow has. -/
theorem Holds.counted (h : Holds f protoBytes rest) (dir : Direction) (len : ℕ) (now : Instant) :
    Holds (Inner.counted f dir len now) (protoBytes.add f.app.label len) rest := by
  intro label
  rw [Counters.get_add, h label, share, share]
  have hc : (Inner.counted f dir len now).app = f.app := by cases dir <;> rfl
  have hb : (Inner.counted f dir len now).up + (Inner.counted f dir len now).down =
      f.up + f.down + len := by
    cases dir <;> simp only [Inner.counted] <;> omega
  rw [hc, hb]
  by_cases hl : f.app.label = label
  · rw [if_pos hl, if_pos hl, if_pos hl.symm]
    omega
  · rw [if_neg hl, if_neg hl, if_neg (Ne.symm hl), Nat.add_zero]

namespace Inner

variable {s s' : Inner}

/-! ### A packet -/

theorem count_total (s : Inner) (dir : Direction) (len : ℕ) :
    (s.count dir len).totalUp + (s.count dir len).totalDown = s.totalUp + s.totalDown + len := by
  cases dir <;> simp only [count] <;> omega

@[simp] theorem count_flows (s : Inner) (dir : Direction) (len : ℕ) :
    (s.count dir len).flows = s.flows := by cases dir <;> rfl

@[simp] theorem count_protoBytes (s : Inner) (dir : Direction) (len : ℕ) :
    (s.count dir len).protoBytes = s.protoBytes := by cases dir <;> rfl

@[simp] theorem count_archive (s : Inner) (dir : Direction) (len : ℕ) :
    (s.count dir len).archive = s.archive := by cases dir <;> rfl

@[simp] theorem count_archiveDropped (s : Inner) (dir : Direction) (len : ℕ) :
    (s.count dir len).archiveDropped = s.archiveDropped := by cases dir <;> rfl

/-- A row holds its flow's bytes, or is new and has none. -/
theorem entry_holds (h : Balanced s.flows s.protoBytes rest) {app : AppProto} {now : Instant}
    {own : Table FlowKey Instant} (e : s.entry key app now = .ok (f, peers, own)) :
    Holds f s.protoBytes (besides s.flows key rest) := by
  unfold entry at e
  split at e
  · next hf =>
      cases e
      exact h.holds hf
  · next hf =>
      obtain ⟨⟨id, peers₁⟩, -, e⟩ := bind_eq_ok.mp e
      cases e
      exact h.holds_new hf rfl

theorem recordRow_spec (h : Balanced s.flows s.protoBytes rest) (dir : Direction)
    (p : ParsedPacket) (now : Instant) :
    s.recordRow exact dir p now = s.recordRow saturating dir p now ∧
      ∀ s', s.recordRow saturating dir p now = .ok s' →
        s'.protoBytes.sum = s.protoBytes.sum + p.len ∧ s'.archive = s.archive ∧
          s'.archiveDropped = s.archiveDropped ∧ s'.totalUp = s.totalUp ∧
          s'.totalDown = s.totalDown ∧ Balanced s'.flows s'.protoBytes rest := by
  unfold recordRow
  dsimp only
  cases he : s.entry (keyOf dir p) p.app now with
  | error err => exact ⟨rfl, fun _ e => by cases e⟩
  | ok r =>
  obtain ⟨f, peers, own⟩ := r
  have hf := entry_holds h he
  obtain ⟨hu, hu'⟩ := upgrade_spec hf peers (keyOf dir p).remoteIp p.app now
  rw [ok_bind, ok_bind, hu]
  cases eu : upgrade saturating f s.protoBytes peers (keyOf dir p).remoteIp p.app now with
  | error err => exact ⟨rfl, fun _ e => by cases e⟩
  | ok r =>
  obtain ⟨f₁, protoBytes₁, peers₁⟩ := r
  have hm := hu' f₁ protoBytes₁ peers₁ eu
  obtain ⟨hc, hc'⟩ := correlate_spec hm.holds peers₁ (keyOf dir p).remoteIp
  rw [ok_bind, ok_bind, hc]
  refine ⟨rfl, fun s' e => ?_⟩
  obtain ⟨⟨f₂, protoBytes₂⟩, ec, e⟩ := bind_eq_ok.mp e
  cases e
  have hm' := hc' f₂ protoBytes₂ ec
  refine ⟨?_, rfl, rfl, rfl, rfl, (hm'.holds.counted dir p.len now).balanced⟩
  dsimp only
  rw [Counters.sum_add, hm'.sum, hm.sum]

/-- What a packet adds to the counters. -/
structure Recorded (s s' : Inner) (dir : Direction) (p : ParsedPacket) (rest : String → ℕ) :
    Prop where
  total : s'.totalUp + s'.totalDown = s.totalUp + s.totalDown + p.len
  sum : s'.protoBytes.sum = s.protoBytes.sum + p.len
  archive : s'.archive = s.archive
  archiveDropped : s'.archiveDropped = s.archiveDropped
  declined : s.declines dir p → s'.flows = s.flows ∧
    s'.protoBytes = s.protoBytes.add p.app.label p.len
  balanced : ¬ s.declines dir p → Balanced s'.flows s'.protoBytes rest

theorem recordParsed_spec (h : Balanced s.flows s.protoBytes rest) (dir : Direction)
    (p : ParsedPacket) (now : Instant) :
    s.recordParsed exact dir p now = s.recordParsed saturating dir p now ∧
      ∀ s', s.recordParsed saturating dir p now = .ok s' → Recorded s s' dir p rest := by
  have hdec : (s.count dir p.len).declines dir p ↔ s.declines dir p := by
    rw [declines, declines, count_flows]
  have htotal := count_total s dir p.len
  unfold recordParsed
  dsimp only
  by_cases hd : s.declines dir p
  · have hd' := hdec.mpr hd
    rw [if_pos hd', if_pos hd']
    refine ⟨rfl, fun s' e => ?_⟩
    cases e
    refine ⟨htotal, ?_, count_archive s dir p.len, count_archiveDropped s dir p.len,
      fun _ => ⟨count_flows s dir p.len, ?_⟩, fun hn => absurd hd hn⟩
    · dsimp only
      rw [Counters.sum_add, count_protoBytes]
    · dsimp only
      rw [count_protoBytes]
  · have hd' := hdec.not.mpr hd
    have h₁ : Balanced (s.count dir p.len).flows (s.count dir p.len).protoBytes rest := by
      rwa [count_flows, count_protoBytes]
    obtain ⟨hr, hr'⟩ := recordRow_spec h₁ dir p now
    rw [if_neg hd', if_neg hd']
    refine ⟨hr, fun s' e => ?_⟩
    obtain ⟨hsum, ha, had, hup, hdown, hb⟩ := hr' s' e
    refine ⟨?_, ?_, ha.trans (count_archive s dir p.len),
      had.trans (count_archiveDropped s dir p.len), fun hn => absurd hn hd, fun _ => hb⟩
    · rw [hup, hdown, htotal]
    · rw [hsum, count_protoBytes]

/-! ### A tick -/

/-- A sweep moves flows to the archive with their bytes. -/
structure Swept (s s' : Inner) (records all : List FlowRecord) : Prop where
  total : s'.totalUp = s.totalUp ∧ s'.totalDown = s.totalDown
  protoBytes : s'.protoBytes = s.protoBytes
  bytes : ∀ label, liveBytes s'.flows label + archivedBytes records label = liveBytes s.flows label
  retained : Retained (all ++ records) s'.archiveDropped s'.archive

theorem archiveFlow_spec {all records : List FlowRecord}
    (h : Retained all s.archiveDropped s.archive) (e : s.archiveFlow key = .ok (s', records)) :
    Swept s s' records all := by
  unfold archiveFlow at e
  split at e
  · cases e
    exact ⟨⟨rfl, rfl⟩, rfl, fun label => Nat.add_zero _, by rwa [List.append_nil]⟩
  · next f hf =>
      obtain ⟨r, hr, e⟩ := bind_eq_ok.mp e
      cases e
      refine ⟨⟨rfl, rfl⟩, rfl, fun label => ?_, ?_⟩
      · have hshare : archivedBytes [r] label = share f label := by
          unfold recordOf at hr
          obtain ⟨peer, -, hr⟩ := bind_eq_ok.mp hr
          cases hr
          simp [archivedBytes, recordBytes, share]
        rw [hshare]
        unfold liveBytes
        rw [Finmap.total_of_lookup _ hf]
        exact Nat.add_comm _ _
      · have hp := h.push (show 0 < MAX_ARCHIVE by decide) r
        simpa using hp

theorem sweep_spec {ks : List FlowKey} {all records : List FlowRecord}
    (h : Retained all s.archiveDropped s.archive) (e : sweep ks s = .ok (s', records)) :
    Swept s s' records all := by
  induction ks generalizing s all records with
  | nil =>
      cases e
      exact ⟨⟨rfl, rfl⟩, rfl, fun label => Nat.add_zero _, by rwa [List.append_nil]⟩
  | cons k ks ih =>
      obtain ⟨⟨s₁, r₁⟩, e₁, e⟩ := bind_eq_ok.mp e
      obtain ⟨⟨s₂, r₂⟩, e₂, e⟩ := bind_eq_ok.mp e
      cases e
      have h₁ := archiveFlow_spec h e₁
      have h₂ := ih h₁.retained e₂
      refine ⟨⟨h₂.total.1.trans h₁.total.1, h₂.total.2.trans h₁.total.2⟩,
        h₂.protoBytes.trans h₁.protoBytes, fun label => ?_, ?_⟩
      · have hb₁ := h₁.bytes label
        have hb₂ := h₂.bytes label
        rw [archivedBytes_append]
        omega
      · rw [← List.append_assoc]
        exact h₂.retained

/-- The second walk changes labels, and what is not counted. -/
structure Refreshed (s s' : Inner) (rest : String → ℕ) : Prop where
  total : s'.totalUp = s.totalUp ∧ s'.totalDown = s.totalDown
  archive : s'.archive = s.archive
  archiveDropped : s'.archiveDropped = s.archiveDropped
  sum : s'.protoBytes.sum = s.protoBytes.sum
  balanced : Balanced s'.flows s'.protoBytes rest

theorem refreshFlow_spec (h : Balanced s.flows s.protoBytes rest) (now : Instant) (dt : ℕ)
    (key : FlowKey) :
    s.refreshFlow exact now dt key = s.refreshFlow saturating now dt key ∧
      ∀ s', s.refreshFlow saturating now dt key = .ok s' → Refreshed s s' rest := by
  unfold refreshFlow
  split
  · refine ⟨rfl, fun s' e => ?_⟩
    cases e
    exact ⟨⟨rfl, rfl⟩, rfl, rfl, rfl, h⟩
  · next f hf =>
      dsimp only
      cases ep : s.peers.refresh key.remoteIp f.app.family now with
      | error err => exact ⟨rfl, fun _ e => by cases e⟩
      | ok peers =>
          rw [ok_bind, ok_bind]
          have hh : Holds
              { f with rate := ⟨f.up + f.down - f.lastTotal, dt⟩, lastTotal := f.up + f.down }
              s.protoBytes (besides s.flows key rest) := (h.holds hf).congr rfl rfl rfl
          obtain ⟨hc, hc'⟩ := correlate_spec hh peers key.remoteIp
          rw [hc]
          refine ⟨rfl, fun s' e => ?_⟩
          obtain ⟨⟨f₁, protoBytes₁⟩, ec, e⟩ := bind_eq_ok.mp e
          cases e
          have hm := hc' f₁ protoBytes₁ ec
          exact ⟨⟨rfl, rfl⟩, rfl, rfl, hm.sum, hm.holds.balanced⟩

theorem refreshAll_spec (h : Balanced s.flows s.protoBytes rest) (now : Instant) (dt : ℕ)
    (ks : List FlowKey) :
    refreshAll exact now dt ks s = refreshAll saturating now dt ks s ∧
      ∀ s', refreshAll saturating now dt ks s = .ok s' → Refreshed s s' rest := by
  induction ks generalizing s with
  | nil =>
      refine ⟨rfl, fun s' e => ?_⟩
      cases e
      exact ⟨⟨rfl, rfl⟩, rfl, rfl, rfl, h⟩
  | cons k ks ih =>
      obtain ⟨he, hs⟩ := refreshFlow_spec h now dt k
      unfold refreshAll
      rw [he]
      cases e₁ : s.refreshFlow saturating now dt k with
      | error err => exact ⟨rfl, fun _ e => by cases e⟩
      | ok s₁ =>
          have h₁ := hs s₁ e₁
          rw [ok_bind, ok_bind]
          obtain ⟨he', hs'⟩ := ih h₁.balanced
          refine ⟨he', fun s' e => ?_⟩
          have h₂ := hs' s' e
          exact ⟨⟨h₂.total.1.trans h₁.total.1, h₂.total.2.trans h₁.total.2⟩,
            h₂.archive.trans h₁.archive, h₂.archiveDropped.trans h₁.archiveDropped,
            h₂.sum.trans h₁.sum, h₂.balanced⟩

/-- What a tick does to the counters, with the records it archives. -/
structure Ticked (s s' : Inner) (records all : List FlowRecord) (rest : String → ℕ) : Prop where
  total : s'.totalUp = s.totalUp ∧ s'.totalDown = s.totalDown
  sum : s'.protoBytes.sum = s.protoBytes.sum
  retained : Retained (all ++ records) s'.archiveDropped s'.archive
  balanced : Balanced s'.flows s'.protoBytes fun label => archivedBytes records label + rest label

theorem tick_spec {all : List FlowRecord} (h : Balanced s.flows s.protoBytes rest)
    (ha : Retained all s.archiveDropped s.archive) (now : Instant) (order visit : List FlowKey) :
    s.tick exact now order visit = s.tick saturating now order visit ∧
      ∀ s' records, s.tick saturating now order visit = .ok (s', records) →
        Ticked s s' records all rest := by
  unfold tick
  dsimp only
  cases e₁ : sweep ((s.advance now).idleKeys now order) (s.advance now) with
  | error err => exact ⟨rfl, fun _ _ e => by cases e⟩
  | ok r =>
  obtain ⟨s₁, records₁⟩ := r
  have h₁ := sweep_spec (s := s.advance now) ha e₁
  -- what the sweep takes from the table is in the records
  have hb : Balanced s₁.flows s₁.protoBytes fun label =>
      archivedBytes records₁ label + rest label := by
    intro label
    have hl := h label
    have hm := h₁.bytes label
    have hf : liveBytes (s.advance now).flows label = liveBytes s.flows label := rfl
    have hp : (s.advance now).protoBytes.get label = s.protoBytes.get label := rfl
    rw [h₁.protoBytes]
    dsimp only
    omega
  rw [ok_bind, ok_bind]
  obtain ⟨he, hs⟩ := refreshAll_spec
    (s := { s₁ with own := s₁.own.retain fun _ t => durationSince now t < OWN_MARK_TTL }) hb now
    (max (durationSince now s.lastTick) 1000000) visit
  rw [he]
  refine ⟨rfl, fun s' records e => ?_⟩
  obtain ⟨s₂, e₂, e⟩ := bind_eq_ok.mp e
  cases e
  have h₂ := hs s' e₂
  refine ⟨⟨h₂.total.1.trans h₁.total.1, h₂.total.2.trans h₁.total.2⟩, ?_, ?_, h₂.balanced⟩
  · rw [h₂.sum]
    exact congrArg Counters.sum h₁.protoBytes
  · rw [h₂.archive, h₂.archiveDropped]
    exact h₁.retained

/-! ### The other calls -/

theorem noteFlow_balanced (h : Balanced s.flows s.protoBytes rest) (tcp : Bool)
    (remoteIp : Ipv4Addr) (remotePort localPort : UInt16) (status : FlowStatus) :
    Balanced (s.noteFlow tcp remoteIp remotePort localPort status).flows s.protoBytes rest := by
  unfold noteFlow
  dsimp only
  split
  · next f hf =>
      exact Holds.balanced (f := { f with status })
        ((h.holds hf).congr rfl rfl rfl)
  · exact h

theorem markOwn_balanced (h : Balanced s.flows s.protoBytes rest) (remoteIp : IpAddr)
    (remotePort localPort : UInt16) (tcp : Bool) (now : Instant) :
    Balanced (s.markOwn remoteIp remotePort localPort tcp now).flows s.protoBytes rest := by
  unfold markOwn
  dsimp only
  split
  · next f hf =>
      exact Holds.balanced (f := { f with origin := .intel }) ((h.holds hf).congr rfl rfl rfl)
  · exact h

/-- The call leaves everything that is counted as it was. -/
structure Unmoved (s s' : Inner) : Prop where
  total : s'.totalUp = s.totalUp ∧ s'.totalDown = s.totalDown
  protoBytes : s'.protoBytes = s.protoBytes
  archive : s'.archive = s.archive
  archiveDropped : s'.archiveDropped = s.archiveDropped

theorem noteFlow_unmoved (s : Inner) (tcp : Bool) (remoteIp : Ipv4Addr)
    (remotePort localPort : UInt16) (status : FlowStatus) :
    Unmoved s (s.noteFlow tcp remoteIp remotePort localPort status) := by
  unfold noteFlow
  dsimp only
  split <;> exact ⟨⟨rfl, rfl⟩, rfl, rfl, rfl⟩

theorem markOwn_unmoved (s : Inner) (remoteIp : IpAddr) (remotePort localPort : UInt16)
    (tcp : Bool) (now : Instant) :
    Unmoved s (s.markOwn remoteIp remotePort localPort tcp now) := by
  unfold markOwn
  dsimp only
  split <;> exact ⟨⟨rfl, rfl⟩, rfl, rfl, rfl⟩

theorem enrichCandidate_unmoved {found : Option IpAddr}
    (e : s.enrichCandidate = .ok (found, s')) : s'.flows = s.flows ∧ Unmoved s s' := by
  obtain ⟨hosts, -, e⟩ := bind_eq_ok.mp e
  dsimp only at e
  obtain ⟨peers, -, e⟩ := bind_eq_ok.mp e
  cases e
  exact ⟨rfl, ⟨rfl, rfl⟩, rfl, rfl, rfl⟩

theorem enrich_unmoved {ip : IpAddr} {info : Option AsnInfo} (e : s.enrich ip info = .ok s') :
    s'.flows = s.flows ∧ Unmoved s s' := by
  unfold enrich at e
  dsimp only at e
  cases info with
  | some info =>
      obtain ⟨peers, -, e⟩ := bind_eq_ok.mp e
      cases e
      exact ⟨rfl, ⟨rfl, rfl⟩, rfl, rfl, rfl⟩
  | none =>
      cases e
      exact ⟨rfl, ⟨rfl, rfl⟩, rfl, rfl, rfl⟩

end Inner

/-! ### Runs -/

/-- A monitor, every record it ever archived, and the bytes of the packets it gave no row. -/
structure Audited where
  inner : Inner
  archived : List FlowRecord
  unrowed : Counters String

/-- The records an event archives. -/
def archivedBy (s : Inner) : MonitorEvent → List FlowRecord
  | .tick now order visit =>
    match s.tick saturating now order visit with
    | .ok (_, records) => records
    | .error _ => []
  | _ => []

/-- What is counted besides the live flows. -/
def elsewhere (a : Audited) (label : String) : ℕ :=
  archivedBytes a.archived label + a.unrowed.get label

/-- The counters agree with each other, and with all that was seen. -/
structure Conserved (a : Audited) : Prop where
  retained : Retained a.archived a.inner.archiveDropped a.inner.archive
  label : Balanced a.inner.flows a.inner.protoBytes (elsewhere a)
  total : a.inner.protoBytes.sum = a.inner.totalUp + a.inner.totalDown

variable {a a' : Audited}

theorem conserved_new (now wallBase : Instant) (arena : ℕ) :
    Conserved ⟨.new now wallBase arena, [], ∅⟩ :=
  ⟨⟨rfl, Nat.le_refl 0⟩, fun _ => rfl, rfl⟩

/-- A call that moves nothing. -/
theorem Conserved.unmoved (h : Conserved a) {s' : Inner} (hs : Inner.Unmoved a.inner s')
    (hb : Balanced s'.flows a.inner.protoBytes (elsewhere a)) :
    Conserved ⟨s', a.archived ++ [], a.unrowed⟩ where
  retained := by
    rw [List.append_nil, hs.archive, hs.archiveDropped]
    exact h.retained
  label := by
    rw [List.append_nil, hs.protoBytes]
    exact hb
  total := by
    rw [hs.protoBytes, hs.total.1, hs.total.2]
    exact h.total

theorem conserved_tick (h : Conserved a) {now : Instant} {order visit : List FlowKey} {s' : Inner}
    {records : List FlowRecord}
    (e : a.inner.tick saturating now order visit = .ok (s', records)) :
    Conserved ⟨s', a.archived ++ records, a.unrowed⟩ := by
  have ht := (Inner.tick_spec h.label h.retained now order visit).2 s' records e
  refine ⟨ht.retained, fun label => ?_, ?_⟩
  · have hb := ht.balanced label
    dsimp only [elsewhere] at hb ⊢
    rw [archivedBytes_append, hb]
    omega
  · dsimp only
    rw [ht.sum, ht.total.1, ht.total.2]
    exact h.total

section
variable [Entropy]

/-- A packet of a new flow, at a full table, is counted under its own label. -/
def unrowedBy (s : Inner) (unrowed : Counters String) : MonitorEvent → Counters String
  | .record dir pkt _ =>
    match parse pkt with
    | .ok (some p) => if s.declines dir p then unrowed.add p.app.label p.len else unrowed
    | _ => unrowed
  | _ => unrowed

structure AuditStep (a : Audited) (e : MonitorEvent) (a' : Audited) : Prop where
  ordered : Ordered a.inner e
  inner : a.inner.apply saturating e = .ok a'.inner
  archived : a'.archived = a.archived ++ archivedBy a.inner e
  unrowed : a'.unrowed = unrowedBy a.inner a.unrowed e

/-- The states of the monitor from its start on. -/
def AuditReachable : Audited → Prop :=
  Reachable (fun a => ∃ now wallBase arena, a = ⟨.new now wallBase arena, [], ∅⟩) AuditStep

theorem conserved_record (h : Conserved a) {dir : Direction} {pkt : Bytes} {now : Instant}
    {s' : Inner} (e : a.inner.record saturating dir pkt now = .ok s') :
    Conserved ⟨s', a.archived ++ [], unrowedBy a.inner a.unrowed (.record dir pkt now)⟩ := by
  obtain ⟨parsed, hp, e⟩ := bind_eq_ok.mp e
  rw [List.append_nil]
  unfold unrowedBy
  dsimp only
  rw [hp]
  cases parsed with
  | none =>
      cases e
      exact ⟨h.retained, h.label, h.total⟩
  | some p =>
      have hr := (Inner.recordParsed_spec h.label dir p now).2 s' e
      refine ⟨?_, ?_, ?_⟩
      · dsimp only
        rw [hr.archive, hr.archiveDropped]
        exact h.retained
      · dsimp only
        split
        · next hd =>
            obtain ⟨hf, hpb⟩ := hr.declined hd
            intro label
            have hl := h.label label
            dsimp only [elsewhere] at hl ⊢
            rw [hf, hpb, Counters.get_add, Counters.get_add]
            omega
        · next hd => exact hr.balanced hd
      · dsimp only
        rw [hr.sum, hr.total, h.total]

/-- One event. -/
theorem conserved_step {e : MonitorEvent} (h : Conserved a) (hs : AuditStep a e a') :
    Conserved a' := by
  obtain ⟨s', archived', unrowed'⟩ := a'
  obtain ⟨-, hi, ha, hu⟩ := hs
  dsimp only at hi ha hu
  subst ha hu
  cases e with
  | record dir pkt now => exact conserved_record h hi
  | tick now order visit =>
      obtain ⟨⟨s₁, records⟩, ht, hi⟩ := bind_eq_ok.mp hi
      cases hi
      unfold archivedBy unrowedBy
      dsimp only
      rw [ht]
      exact conserved_tick h ht
  | noteFlow tcp remoteIp remotePort localPort status =>
      cases hi
      exact h.unmoved (Inner.noteFlow_unmoved _ _ _ _ _ _)
        (Inner.noteFlow_balanced h.label _ _ _ _ _)
  | markOwn remoteIp remotePort localPort tcp now =>
      cases hi
      exact h.unmoved (Inner.markOwn_unmoved _ _ _ _ _ _)
        (Inner.markOwn_balanced h.label _ _ _ _ _)
  | enrichCandidate =>
      obtain ⟨⟨found, s₁⟩, hc, hi⟩ := bind_eq_ok.mp hi
      cases hi
      obtain ⟨hf, hn⟩ := Inner.enrichCandidate_unmoved hc
      exact h.unmoved hn (by rw [hf]; exact h.label)
  | enrich ip info =>
      obtain ⟨hf, hn⟩ := Inner.enrich_unmoved hi
      exact h.unmoved hn (by rw [hf]; exact h.label)

theorem conserved_reachable (h : AuditReachable a) : Conserved a := by
  refine h.invariant (I := Conserved) ?_ fun _ _ _ => conserved_step
  rintro s ⟨now, wallBase, arena, rfl⟩
  exact conserved_new now wallBase arena

/-- No subtraction of an event saturates. -/
theorem apply_exact (h : Conserved a) (e : MonitorEvent) :
    a.inner.apply exact e = a.inner.apply saturating e := by
  cases e with
  | record dir pkt now =>
      unfold Inner.apply Inner.record
      dsimp only
      cases hp : parse pkt with
      | error err => rfl
      | ok parsed =>
          cases parsed with
          | none => rfl
          | some p => exact (Inner.recordParsed_spec h.label dir p now).1
  | tick now order visit =>
      unfold Inner.apply
      dsimp only
      rw [(Inner.tick_spec h.label h.retained now order visit).1]
  | noteFlow | markOwn | enrichCandidate | enrich => rfl

/-- In every reachable state the counters of all labels add up to the bytes seen, each of them to
the bytes of its live flows, of its archived records and of its packets without a row, and a label
that changes takes the bytes of its flow along, whole. -/
theorem bytes_conserved (h : AuditReachable a) :
    Conserved a ∧ ∀ e, a.inner.apply exact e = a.inner.apply saturating e :=
  ⟨conserved_reachable h, apply_exact (conserved_reachable h)⟩

end

/-! ### A flow that turns out to be TLS -/

/-- Stands for the entropy of payloads too short to be judged by it. -/
abbrev nothingRandom : Entropy := ⟨fun _ _ => false⟩

/-- A packet from 10.0.0.1:40000 to 1.1.1.1:9999. -/
def aSyn : Bytes :=
  [0x45, 0, 0, 40, 0, 1, 0, 0, 64, 6, 0, 0, 10, 0, 0, 1, 1, 1, 1, 1,
    0x9c, 0x40, 0x27, 0x0f, 0, 0, 0, 1, 0, 0, 0, 0, 0x50, 2, 0xff, 0xff, 0, 0, 0, 0]

/-- The same, with the start of a TLS record. -/
def aHello : Bytes := aSyn ++ [0x16, 3, 1]

def helloRun : Checked Inner := letI := nothingRandom; do
  let s ← (Inner.new 0 0 PEER_ARENA).record saturating .up aSyn 0
  s.record saturating .up aHello 1

/-- The forty bytes counted under no better label move. -/
theorem bytes_conserved_hello : ∃ a : Audited,
    a.inner.protoBytes.get "TLS" = 83 ∧ a.inner.protoBytes.get "Other" = 0 ∧
      Conserved a ∧ ∀ e, @Inner.apply nothingRandom exact a.inner e =
        @Inner.apply nothingRandom saturating a.inner e := by
  let := nothingRandom
  have hread : helloRun.map (fun s => (s.protoBytes.get "TLS", s.protoBytes.get "Other")) =
      .ok (83, 0) := by decide +kernel
  cases hr : helloRun with
  | error err =>
      rw [hr] at hread
      cases hread
  | ok s =>
  rw [hr] at hread
  obtain ⟨s₁, e₁, e₂⟩ := bind_eq_ok.mp hr
  let a₁ : Audited := ⟨s₁, [], unrowedBy (.new 0 0 PEER_ARENA) ∅ (.record .up aSyn 0)⟩
  let a₂ : Audited := ⟨s, [], unrowedBy s₁ a₁.unrowed (.record .up aHello 1)⟩
  have h₁ : AuditStep ⟨.new 0 0 PEER_ARENA, [], ∅⟩ (.record .up aSyn 0) a₁ :=
    ⟨trivial, e₁, rfl, rfl⟩
  have h₂ : AuditStep a₁ (.record .up aHello 1) a₂ := ⟨trivial, e₂, rfl, rfl⟩
  have h : AuditReachable a₂ := ⟨_, _, ⟨0, 0, PEER_ARENA, rfl⟩, .more h₁ (.one h₂)⟩
  injection hread with hread
  injection hread with htls hother
  exact ⟨a₂, htls, hother, bytes_conserved h⟩

end Tunnel.Inspect
