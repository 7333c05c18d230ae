import Tunnel.Inspect.Convergence

/-!
# Inspect — Flows of the program's own

`mark_own` says that a flow is the program's own: a row that is live changes its origin, and a mark
waits for a flow that has none.

Of what the monitor holds about one flow key this module keeps two things, the origin of its row and
its pending mark, and says of each call what it does to them.  A mark that waits is taken by the
row that is opened next.  A mark that went to a row is gone with it: where a tick archives the row,
the next packet opens one that is counted to the host.

* `own_iff_not_swept`: in every run, the row a packet lands in within `OWN_MARK_TTL` of a mark is
  the program's own exactly when no tick since has archived the row of the key, or a later call has
  marked the key again.
* `own_lost`: a run in which a tick archives the marked row.
-/

namespace Tunnel.Inspect
open Support

/-- The origin of the key's row, if it is live. -/
def Inner.originOf (s : Inner) (k : FlowKey) : Option Origin := (s.flows.lookup k).map Flow.origin

/-- A mark waits for a row, and is gone once there is one. -/
def Inner.Apart (s : Inner) : Prop := ∀ k, s.flows.lookup k ≠ none → s.own.lookup k = none

/-! ### Labels leave the origin alone -/

section Labels

variable {sub : Subtraction} {f : Flow} {protoBytes : Counters String} {peers : PeerArena}

theorem relabel_origin (app : AppProto) :
    Yields (fun r => r.1.origin = f.origin) (relabel sub f protoBytes app) := by
  unfold relabel
  exact .ite (fun _ => .bind_any fun _ => .ok rfl) fun _ => .ok rfl

theorem upgrade_origin (ip : IpAddr) (app : AppProto) (now : Instant) :
    Yields (fun r => r.1.origin = f.origin) (upgrade sub f protoBytes peers ip app now) := by
  unfold upgrade
  refine .ite (fun _ => (relabel_origin app).bind fun r hr => ?_) fun _ => .ok rfl
  exact .bind_any fun _ => .ok hr

theorem correlate_origin (ip : IpAddr) :
    Yields (fun r => r.1.origin = f.origin) (correlate sub f protoBytes peers ip) := by
  unfold correlate
  refine .ite (fun _ => .bind_any fun torrents => ?_) fun _ => .ok rfl
  exact .ite (fun _ => relabel_origin _) fun _ => .ok rfl

theorem counted_origin (f : Flow) (dir : Direction) (len : ℕ) (now : Instant) :
    (Inner.counted f dir len now).origin = f.origin := by cases dir <;> rfl

end Labels

namespace Inner

variable {s s' : Inner} {sub : Subtraction} {k key : FlowKey}

theorem originOf_eq_none : s.originOf k = none ↔ s.flows.lookup k = none := Option.map_eq_none_iff

theorem originOf_insert (flows : Table FlowKey Flow) {f : Flow} (h : s.flows = flows.insert key f)
    (k : FlowKey) :
    s.originOf k = if k = key then some f.origin else (flows.lookup k).map Flow.origin := by
  rw [originOf, h, Finmap.lookup_insert_eq]
  split <;> rfl

/-! ### A packet -/

/-- The origin of the row a packet lands in. -/
def landing (s : Inner) (k : FlowKey) : Origin :=
  (s.originOf k).getD (if (s.own.lookup k).isSome then .intel else .host)

/-- What a call leaves of the origins and the marks, a packet's row apart. -/
structure Lands (s s' : Inner) (key : FlowKey) : Prop where
  origin : ∀ k, s'.originOf k = if k = key then some (s.landing key) else s.originOf k
  own : ∀ k, s'.own.lookup k = if k = key then none else s.own.lookup k

theorem entry_origin (hs : s.Apart) (key : FlowKey) (app : AppProto) (now : Instant) :
    Yields (fun r => r.1.origin = s.landing key ∧
      ∀ k, r.2.2.lookup k = if k = key then none else s.own.lookup k) (s.entry key app now) := by
  unfold entry
  cases hf : s.flows.lookup key with
  | some f =>
      refine .ok ⟨by simp [landing, originOf, hf], fun k => ?_⟩
      split
      · next e => rw [e, hs key (by simp [hf])]
      · rfl
  | none =>
      refine .bind_any fun r => .ok ⟨?_, Finmap.lookup_erase_eq _ _⟩
      simp [landing, originOf, hf]

theorem recordRow_lands (hs : s.Apart) {dir : Direction} {p : ParsedPacket} {now : Instant}
    (e : s.recordRow sub dir p now = .ok s') : Lands s s' (keyOf dir p) := by
  obtain ⟨⟨f, peers, own⟩, e₁, e⟩ := bind_eq_ok.mp e
  obtain ⟨⟨f₁, protoBytes₁, peers₁⟩, e₂, e⟩ := bind_eq_ok.mp e
  obtain ⟨⟨f₂, protoBytes₂⟩, e₃, e⟩ := bind_eq_ok.mp e
  cases e
  obtain ⟨hf, hown⟩ := entry_origin hs _ _ _ _ e₁
  have h₁ : f₁.origin = f.origin := upgrade_origin _ _ _ _ e₂
  have h₂ : f₂.origin = f₁.origin := correlate_origin _ _ e₃
  refine ⟨fun k => ?_, hown⟩
  rw [originOf_insert s.flows rfl, counted_origin, h₂, h₁]
  exact if_congr .rfl (congrArg some hf) rfl

theorem count_own (s : Inner) (dir : Direction) (len : ℕ) : (s.count dir len).own = s.own := by
  cases dir <;> rfl

/-- Nothing of the origins and the marks changes. -/
structure Untold (s s' : Inner) : Prop where
  origin : ∀ k, s'.originOf k = s.originOf k
  own : ∀ k, s'.own.lookup k = s.own.lookup k

theorem Untold.refl (s : Inner) : Untold s s := ⟨fun _ => rfl, fun _ => rfl⟩

theorem Untold.trans {s₁ : Inner} (h : Untold s s₁) (h' : Untold s₁ s') : Untold s s' :=
  ⟨fun k => (h'.origin k).trans (h.origin k), fun k => (h'.own k).trans (h.own k)⟩

theorem Untold.of_eq (hf : s'.flows = s.flows) (ho : s'.own = s.own) : Untold s s' :=
  ⟨fun k => by rw [originOf, hf, originOf], fun k => by rw [ho]⟩

/-- A packet that is counted in no row, and one that is. -/
theorem record_lands [Entropy] (hs : s.Apart) {dir : Direction} {pkt : Bytes} {now : Instant}
    (e : s.record sub dir pkt now = .ok s') :
    (Untold s s' ∧ ∀ p, parse pkt = .ok (some p) → s'.flows.lookup (keyOf dir p) = none) ∨
      ∃ p, parse pkt = .ok (some p) ∧ Lands s s' (keyOf dir p) := by
  obtain ⟨p, hp, e⟩ := bind_eq_ok.mp e
  cases p with
  | none =>
      cases e
      exact .inl ⟨.refl s, fun p h => by rw [hp] at h; cases h⟩
  | some p =>
      have hf := count_flows s dir p.len
      have ho := count_own s dir p.len
      dsimp only [recordParsed] at e
      split at e
      · next hd =>
          injection e with e
          subst e
          refine .inl ⟨.of_eq hf ho, fun p' h => ?_⟩
          rw [hp] at h
          cases h
          exact hd.2
      · have hl := recordRow_lands (s := s.count dir p.len) (by rwa [Apart, hf, ho]) e
        refine .inr ⟨p, hp, fun k => ?_, fun k => ?_⟩
        · rw [hl.origin, landing, originOf, originOf, hf, ho]
          rfl
        · rw [hl.own, ho]

/-! ### A tick -/

/-- The flows a sweep is given lose their rows, and no mark is touched. -/
theorem sweep_origin {ks : List FlowKey} {records : List FlowRecord}
    (e : sweep ks s = .ok (s', records)) :
    (∀ k, s'.originOf k = if k ∈ ks then none else s.originOf k) ∧ s'.own = s.own := by
  induction ks generalizing s records with
  | nil =>
      cases e
      exact ⟨by simp, rfl⟩
  | cons j ks ih =>
      obtain ⟨⟨s₁, r₁⟩, e₁, e⟩ := bind_eq_ok.mp e
      obtain ⟨⟨s₂, r₂⟩, e₂, e⟩ := bind_eq_ok.mp e
      cases e
      have hone : (∀ k, s₁.originOf k = if k = j then none else s.originOf k) ∧ s₁.own = s.own := by
        unfold archiveFlow at e₁
        split at e₁
        · next hj =>
            cases e₁
            refine ⟨fun k => ?_, rfl⟩
            split
            · next hk => rw [hk, originOf_eq_none, hj]
            · rfl
        · obtain ⟨r, -, e₁⟩ := bind_eq_ok.mp e₁
          cases e₁
          refine ⟨fun k => ?_, rfl⟩
          rw [originOf, Finmap.lookup_erase_eq]
          split <;> rfl
      obtain ⟨ho, hown⟩ := ih e₂
      refine ⟨fun k => ?_, hown.trans hone.2⟩
      rw [ho, hone.1]
      by_cases hk : k = j <;> by_cases hm : k ∈ ks <;> simp [hk, hm]

theorem refreshFlow_untold {now : Instant} {dt : ℕ}
    (e : s.refreshFlow sub now dt key = .ok s') : Untold s s' := by
  unfold refreshFlow at e
  split at e
  · cases e
    exact .refl s
  · next f hf =>
      obtain ⟨peers, -, e⟩ := bind_eq_ok.mp e
      obtain ⟨⟨f₁, protoBytes⟩, e₁, e⟩ := bind_eq_ok.mp e
      cases e
      have h₁ : f₁.origin = f.origin := correlate_origin _ _ e₁
      refine ⟨fun k => ?_, fun _ => rfl⟩
      rw [originOf_insert s.flows rfl, h₁]
      split
      · next hk => rw [hk, originOf, hf]; rfl
      · rfl

theorem refreshAll_untold {now : Instant} {dt : ℕ} {ks : List FlowKey}
    (e : refreshAll sub now dt ks s = .ok s') : Untold s s' := by
  induction ks generalizing s with
  | nil =>
      cases e
      exact .refl s'
  | cons j ks ih =>
      obtain ⟨s₁, e₁, e⟩ := bind_eq_ok.mp e
      exact (refreshFlow_untold e₁).trans (ih e)

/-- The key's row is one that a tick at `now` archives. -/
def idles (s : Inner) (now : Instant) (k : FlowKey) : Bool := (s.flows.lookup k).any (isIdle now)

theorem tick_origin {now : Instant} {order visit : List FlowKey} {records : List FlowRecord}
    (ho : Enumerates order s.flows) (e : s.tick sub now order visit = .ok (s', records)) (k : FlowKey) :
    s'.originOf k = (if s.idles now k then none else s.originOf k) ∧
      s'.own.lookup k = (s.own.lookup k).filter fun t => durationSince now t < OWN_MARK_TTL := by
  unfold tick at e
  obtain ⟨⟨s₁, records₁⟩, e₁, e⟩ := bind_eq_ok.mp e
  obtain ⟨s₂, e₂, e⟩ := bind_eq_ok.mp e
  cases e
  obtain ⟨hor, hown⟩ := sweep_origin e₁
  have hu := refreshAll_untold e₂
  constructor
  · rw [hu.origin]
    refine (hor k).trans ?_
    have hidle : k ∈ (s.advance now).idleKeys now order ↔ s.idles now k = true := by
      simp only [idleKeys, List.mem_filter, ho.2]
      refine ⟨fun hm => hm.2, fun hm => ⟨fun hn => ?_, hm⟩⟩
      simp [idles, hn] at hm
    exact if_congr hidle rfl rfl
  · rw [hu.own]
    exact (Finmap.lookup_retain s₁.own _ k).trans (by rw [hown]; rfl)

/-! ### The other calls -/

theorem noteFlow_untold (s : Inner) (tcp : Bool) (remoteIp : Ipv4Addr)
    (remotePort localPort : UInt16) (status : FlowStatus) :
    Untold s (s.noteFlow tcp remoteIp remotePort localPort status) := by
  unfold noteFlow
  dsimp only
  split
  · next f hf =>
      refine ⟨fun k => ?_, fun _ => rfl⟩
      rw [originOf_insert s.flows rfl]
      split
      · next hk => rw [hk, originOf, hf]; rfl
      · rfl
  · exact .refl s

/-- A mark goes to the row, or waits for one. -/
theorem markOwn_origin (s : Inner) (remoteIp : IpAddr) (remotePort localPort : UInt16)
    (tcp : Bool) (now : Instant) (k : FlowKey) :
    (s.markOwn remoteIp remotePort localPort tcp now).originOf k =
        (if k = ⟨remoteIp, remotePort, localPort, l4Of tcp⟩ then
          (s.originOf k).map fun _ => .intel else s.originOf k) ∧
      (s.markOwn remoteIp remotePort localPort tcp now).own.lookup k =
        if k = ⟨remoteIp, remotePort, localPort, l4Of tcp⟩ ∧ s.originOf k = none then some now
        else s.own.lookup k := by
  unfold markOwn
  dsimp only
  obtain ⟨key, hkey⟩ : ∃ key : FlowKey, ⟨remoteIp, remotePort, localPort, l4Of tcp⟩ = key := ⟨_, rfl⟩
  rw [hkey]
  split
  · next f hf =>
      have hk : s.originOf key = some f.origin := by rw [originOf, hf]; rfl
      refine ⟨?_, (if_neg fun h => ?_).symm⟩
      · rw [originOf_insert s.flows rfl]
        split
        · next h => rw [h, hk]; rfl
        · rfl
      · rw [h.1, hk] at h
        cases h.2
  · next hf =>
      have hk : s.originOf key = none := originOf_eq_none.mpr hf
      refine ⟨?_, ?_⟩
      · split
        · next h => rw [h, hk]; exact hk
        · rfl
      · rw [Finmap.lookup_insert_eq]
        exact if_congr ⟨fun h => ⟨h, by rw [h, hk]⟩, fun h => h.1⟩ rfl rfl

end Inner

/-! ### A step -/

/-- The flow key a call marks. -/
def MonitorEvent.marked : MonitorEvent → Option FlowKey
  | .markOwn remoteIp remotePort localPort tcp _ =>
    some ⟨remoteIp, remotePort, localPort, Inner.l4Of tcp⟩
  | _ => none

/-- The instant a call reads, if it reads the clock. -/
def MonitorEvent.time : MonitorEvent → Option Instant
  | .record _ _ now => some now
  | .tick now _ _ => some now
  | .markOwn _ _ _ _ now => some now
  | _ => none

/-- The call is a tick that archives the key's row. -/
def Inner.Sweeps (s : Inner) (e : MonitorEvent) (k : FlowKey) : Prop :=
  ∃ now order visit, e = .tick now order visit ∧ s.idles now k = true

/-- Everything a call can do to the origin and the mark of a key. -/
inductive Turn (k : FlowKey) (s : Inner) (e : MonitorEvent) (s' : Inner) : Prop where
  | landed (hm : e.marked ≠ some k) (hs : ¬ s.Sweeps e k)
      (origin : s'.originOf k = some (s.landing k)) (own : s'.own.lookup k = none)
  | marked (now : Instant) (hm : e.marked = some k) (hs : ¬ s.Sweeps e k) (ht : e.time = some now)
      (origin : s'.originOf k = (s.originOf k).map fun _ => .intel)
      (own : s'.own.lookup k = if s.originOf k = none then some now else s.own.lookup k)
  | swept (hs : s.Sweeps e k) (row : s.flows.lookup k ≠ none) (origin : s'.originOf k = none)
      (own : ∃ p, s'.own.lookup k = (s.own.lookup k).filter p)
  | aged (now : Instant) (hm : e.marked ≠ some k) (hs : ¬ s.Sweeps e k) (ht : e.time = some now)
      (origin : s'.originOf k = s.originOf k)
      (own : s'.own.lookup k =
        (s.own.lookup k).filter fun t => durationSince now t < OWN_MARK_TTL)
  | kept (hm : e.marked ≠ some k) (hs : ¬ s.Sweeps e k) (origin : s'.originOf k = s.originOf k)
      (own : s'.own.lookup k = s.own.lookup k)

section Step
variable {s s' : Inner} {e : MonitorEvent} {k : FlowKey}

theorem not_sweeps (h : ∀ now order visit, e ≠ .tick now order visit) : ¬ s.Sweeps e k :=
  fun ⟨now, order, visit, he, _⟩ => h now order visit he

theorem Inner.Untold.turn (h : Inner.Untold s s') (hm : e.marked ≠ some k) (hs : ¬ s.Sweeps e k) :
    Turn k s e s' := .kept hm hs (h.origin k) (h.own k)

variable [Entropy]

theorem MonitorStep.turn (hs : s.Apart) (h : MonitorStep s e s') (k : FlowKey) : Turn k s e s' := by
  obtain ⟨ho, e'⟩ := h
  cases e with
  | record dir pkt now =>
      have hn : ¬ s.Sweeps (.record dir pkt now) k := not_sweeps fun _ _ _ h => by cases h
      rcases Inner.record_lands hs e' with ⟨hu, -⟩ | ⟨p, -, hl⟩
      · exact hu.turn nofun hn
      · by_cases hk : k = Inner.keyOf dir p
        · refine .landed nofun hn ?_ ?_
          · rw [hl.origin, if_pos hk, hk]
          · rw [hl.own, if_pos hk]
        · refine .kept nofun hn ?_ ?_
          · rw [hl.origin, if_neg hk]
          · rw [hl.own, if_neg hk]
  | tick now order visit =>
      obtain ⟨⟨s₁, records⟩, e₁, e'⟩ := bind_eq_ok.mp e'
      cases e'
      obtain ⟨horigin, hown⟩ := Inner.tick_origin ho.1 e₁ k
      cases hi : s.idles now k with
      | true =>
          rw [hi, if_pos rfl] at horigin
          refine .swept ⟨now, order, visit, rfl, hi⟩ (fun hn => ?_) horigin ⟨_, hown⟩
          simp [Inner.idles, hn] at hi
      | false =>
          rw [hi, if_neg (by decide)] at horigin
          refine .aged now nofun ?_ rfl horigin hown
          rintro ⟨_, _, _, h, hi'⟩
          cases h
          rw [hi] at hi'
          cases hi'
  | noteFlow tcp remoteIp remotePort localPort status =>
      cases e'
      exact (Inner.noteFlow_untold _ _ _ _ _ _).turn nofun (not_sweeps nofun)
  | markOwn remoteIp remotePort localPort tcp now =>
      cases e'
      obtain ⟨horigin, hown⟩ := Inner.markOwn_origin s remoteIp remotePort localPort tcp now k
      have hn : ¬ s.Sweeps (.markOwn remoteIp remotePort localPort tcp now) k := not_sweeps nofun
      by_cases hk : k = ⟨remoteIp, remotePort, localPort, Inner.l4Of tcp⟩
      · rw [if_pos hk] at horigin
        exact .marked now (by rw [hk]; rfl) hn rfl horigin (by rw [hown]; simp [hk])
      · rw [if_neg hk] at horigin
        refine .kept (fun h => hk (Option.some.inj h).symm) hn horigin ?_
        rw [hown, if_neg fun h => hk h.1]
  | enrichCandidate =>
      obtain ⟨⟨found, s₁⟩, e₁, e'⟩ := bind_eq_ok.mp e'
      cases e'
      obtain ⟨hosts, -, e₁⟩ := bind_eq_ok.mp e₁
      obtain ⟨peers, -, e₁⟩ := bind_eq_ok.mp e₁
      cases e₁
      exact .kept nofun (not_sweeps nofun) rfl rfl
  | enrich ip info =>
      have hu : s'.flows = s.flows ∧ s'.own = s.own := by
        cases info with
        | none =>
            cases e'
            exact ⟨rfl, rfl⟩
        | some info =>
            obtain ⟨peers, -, e'⟩ := bind_eq_ok.mp e'
            cases e'
            exact ⟨rfl, rfl⟩
      exact (Inner.Untold.of_eq hu.1 hu.2).turn nofun (not_sweeps nofun)

theorem MonitorStep.apart (hs : s.Apart) (h : MonitorStep s e s') : s'.Apart := by
  intro k hk
  rw [ne_eq, ← Inner.originOf_eq_none] at hk
  have hnone : s.originOf k ≠ none → s.own.lookup k = none := fun hn =>
    hs k fun h => hn (Inner.originOf_eq_none.mpr h)
  cases h.turn hs k with
  | landed hm hs origin own => exact own
  | marked now hm hs ht origin own =>
      have hn : s.originOf k ≠ none := fun hn => hk (by rw [origin, hn]; rfl)
      rw [own, if_neg hn, hnone hn]
  | swept hs row origin own => exact absurd origin hk
  | aged now hm hs ht origin own =>
      rw [own, hnone (origin ▸ hk)]
      rfl
  | kept hm hs origin own => rw [own, hnone (origin ▸ hk)]

theorem apart_reachable (h : MonitorReachable s) : s.Apart := by
  refine h.invariant (I := Inner.Apart) ?_ fun _ _ _ hs he => he.apart hs
  rintro s ⟨now, wallBase, arena, -, -, rfl⟩ k hk
  exact absurd (Finmap.lookup_empty k) hk

theorem MonitorStep.deterministic {s₁ s₂ : Inner} (h₁ : MonitorStep s e s₁)
    (h₂ : MonitorStep s e s₂) : s₁ = s₂ := by
  have h := h₁.apply.symm.trans h₂.apply
  injection h

end Step

/-! ### A run -/

/-- A tick of the run archives the key's row, and no later call of it marks the key. -/
def MarkSwept [Entropy] (k : FlowKey) (s : Inner) (es : List MonitorEvent) : Prop :=
  ∃ es₁ e es₂ m, es = es₁ ++ e :: es₂ ∧ Run MonitorStep s es₁ m ∧ m.Sweeps e k ∧
    ∀ e' ∈ es₂, e'.marked ≠ some k

/-- The calls read the clock in order. -/
def InOrder (es : List MonitorEvent) : Prop := (es.filterMap MonitorEvent.time).Pairwise (· ≤ ·)

instance (es : List MonitorEvent) : Decidable (InOrder es) :=
  inferInstanceAs (Decidable (List.Pairwise _ _))

theorem InOrder.between {e₀ e₁ e : MonitorEvent} {es : List MonitorEvent} {t now now' : Instant}
    (h : InOrder (e₀ :: es ++ [e₁])) (h₀ : e₀.time = some t) (h₁ : e₁.time = some now) (he : e ∈ es)
    (ht : e.time = some now') : t ≤ now' ∧ now' ≤ now := by
  have hm : now' ∈ es.filterMap MonitorEvent.time := List.mem_filterMap.mpr ⟨e, he, ht⟩
  rw [InOrder, List.cons_append, List.filterMap_cons_some h₀, List.filterMap_append,
    List.filterMap_cons_some h₁, List.pairwise_cons, List.pairwise_append] at h
  exact ⟨h.1 now' (List.mem_append_left _ hm), h.2.2.2 now' hm now (List.mem_cons_self ..)⟩

/-- The key's row is the program's own, or a mark no older than `t` waits for one. -/
def Inner.Held (s : Inner) (k : FlowKey) (t : Instant) : Prop :=
  s.originOf k = some .intel ∨ s.originOf k = none ∧ ∃ t', t ≤ t' ∧ s.own.lookup k = some t'

/-- A call that marks the key. -/
theorem Inner.Held.of_marked {s s' : Inner} {k : FlowKey} {t now : Instant} (hle : t ≤ now)
    (origin : s'.originOf k = (s.originOf k).map fun _ => .intel)
    (own : s'.own.lookup k = if s.originOf k = none then some now else s.own.lookup k) :
    s'.Held k t := by
  cases ho : s.originOf k with
  | none =>
      rw [ho] at origin own
      exact .inr ⟨origin, now, hle, by rw [own, if_pos rfl]⟩
  | some o =>
      rw [ho] at origin
      exact .inl origin

/-- Where a key marked at `t` stands, by whether the mark is lost. -/
structure Standing (k : FlowKey) (t : Instant) (lost : Prop) (s : Inner) : Prop where
  astray : lost → s.originOf k ≠ some .intel ∧ s.own.lookup k = none
  held : ¬ lost → s.Held k t

namespace Standing

variable {s s' : Inner} {e : MonitorEvent} {k : FlowKey} {t : Instant} {lost : Prop}

theorem landing (h : Standing k t lost s) : s.landing k = .intel ↔ ¬ lost := by
  by_cases hl : lost
  · obtain ⟨horigin, hown⟩ := h.astray hl
    rw [Inner.landing, hown]
    cases ho : s.originOf k with
    | none => simp [hl]
    | some o =>
        rw [ho] at horigin
        simpa [hl] using horigin
  · rcases h.held hl with ho | ⟨ho, t', -, hown⟩
    · simp [Inner.landing, ho, hl]
    · simp [Inner.landing, ho, hown, hl]

/-- A mark is lost to a sweep, and found again by another mark. -/
theorem turn (h : Standing k t lost s) (hs : s.Apart) (ht : Turn k s e s')
    (htime : ∀ now ∈ e.time, t ≤ now ∧ durationSince now t < OWN_MARK_TTL) :
    Standing k t (s.Sweeps e k ∨ lost ∧ e.marked ≠ some k) s' := by
  cases ht with
  | landed hm hs origin own =>
      simp only [hs, hm, ne_eq, not_false_eq_true, and_true, false_or]
      refine ⟨fun hl => ⟨?_, own⟩, fun hl => .inl ?_⟩
      · rw [origin]
        exact fun ho => h.landing.mp (Option.some.inj ho) hl
      · rw [origin, h.landing.mpr hl]
  | marked now hm hs ht origin own =>
      simp only [hs, hm, ne_eq, not_true_eq_false, and_false, false_or]
      exact ⟨False.elim, fun _ => .of_marked (htime now ht).1 origin own⟩
  | swept hsw row origin own =>
      obtain ⟨p, own⟩ := own
      rw [hs k row] at own
      exact ⟨fun _ => ⟨by rw [origin]; nofun, own⟩, fun hn => absurd (.inl hsw) hn⟩
  | aged now hm hs ht origin own =>
      simp only [hs, hm, ne_eq, not_false_eq_true, and_true, false_or]
      refine ⟨fun hl => ?_, fun hl => ?_⟩
      · rw [origin, own, (h.astray hl).2]
        exact ⟨(h.astray hl).1, rfl⟩
      · rw [Inner.Held, origin, own]
        refine (h.held hl).imp_right fun ⟨ho, t', hle, ht'⟩ => ⟨ho, t', hle, ?_⟩
        -- the mark is no older than `t`
        have hlt : durationSince now t' < OWN_MARK_TTL :=
          Nat.lt_of_le_of_lt (Nat.sub_le_sub_left hle now) (htime now ht).2
        rw [ht', Option.filter_some, if_pos (decide_eq_true hlt)]
  | kept hm hs origin own =>
      simp only [hs, hm, ne_eq, not_false_eq_true, and_true, false_or]
      exact ⟨fun hl => by rw [origin, own]; exact h.astray hl,
        fun hl => by rw [Inner.Held, origin, own]; exact h.held hl⟩

end Standing

section Runs
variable [Entropy] {s s' s₁ s₂ s₃ : Inner} {e : MonitorEvent} {es : List MonitorEvent} {k : FlowKey}

theorem Inner.Apart.run (hs : s.Apart) (h : Run MonitorStep s es s') : s'.Apart :=
  h.invariant (I := Inner.Apart) (fun _ _ _ hs he => he.apart hs) hs

theorem markSwept_append (h : Run MonitorStep s es s') (e : MonitorEvent) :
    MarkSwept k s (es ++ [e]) ↔ s'.Sweeps e k ∨ MarkSwept k s es ∧ e.marked ≠ some k := by
  constructor
  · rintro ⟨es₁, e₁, es₂, m, he, hm, hsweeps, hn⟩
    rcases List.eq_nil_or_concat es₂ with rfl | ⟨es₂, e₂, rfl⟩
    · obtain ⟨rfl, hlast⟩ := List.append_inj' he rfl
      obtain rfl := List.singleton_inj.mp hlast
      cases h.deterministic (fun _ _ _ _ h₁ h₂ => h₁.deterministic h₂) hm
      exact .inl hsweeps
    · rw [List.concat_eq_append, ← List.cons_append, ← List.append_assoc] at he
      obtain ⟨rfl, hlast⟩ := List.append_inj' he rfl
      obtain rfl := List.singleton_inj.mp hlast
      exact .inr ⟨⟨es₁, e₁, es₂, m, rfl, hm, hsweeps, fun e' h' => hn e' (by simp [h'])⟩,
        hn e (by simp)⟩
  · rintro (hsweeps | ⟨⟨es₁, e₁, es₂, m, rfl, hm, hsweeps, hn⟩, he⟩)
    · exact ⟨es, e, [], s', rfl, h, hsweeps, by simp⟩
    · refine ⟨es₁, e₁, es₂ ++ [e], m, by simp, hm, hsweeps, fun e' h' => ?_⟩
      rcases List.mem_append.mp h' with h' | h'
      · exact hn e' h'
      · rwa [List.mem_singleton.mp h']

/-- Where a marked key stands, a call at a time. -/
theorem standing_run {t : Instant} (hs : s.Apart) (hmark : e.marked = some k)
    (ht : e.time = some t) (h₁ : MonitorStep s e s₁) (hrun : Run MonitorStep s₁ es s₂)
    (htime : ∀ e' ∈ es, ∀ now ∈ e'.time, t ≤ now ∧ durationSince now t < OWN_MARK_TTL) :
    Standing k t (MarkSwept k s₁ es) s₂ := by
  induction es using List.reverseRecOn generalizing s₂ with
  | nil =>
      cases hrun
      have hno : ¬ MarkSwept k s₁ [] := by rintro ⟨es₁, _, _, _, he, -⟩; simp at he
      refine ⟨fun h => absurd h hno, fun _ => ?_⟩
      cases h₁.turn hs k with
      | marked now hm hsw ht' origin own =>
          rw [ht] at ht'
          cases ht'
          exact .of_marked (Nat.le_refl t) origin own
      | swept hsw row origin own =>
          obtain ⟨_, _, _, rfl, -⟩ := hsw
          cases hmark
      | landed hm | aged _ hm | kept hm => exact absurd hmark hm
  | append_singleton es e' ih =>
      obtain ⟨m, hm, hlast⟩ := hrun.split
      cases hlast with
      | more hstep hrefl =>
      cases hrefl
      have hapart := (h₁.apart hs).run hm
      have hstand := ih hm fun e'' he'' => htime e'' (by simp [he''])
      have hnext := hstand.turn hapart (hstep.turn hapart k) (htime e' (by simp))
      rwa [← markSwept_append hm] at hnext

/-- **The program's own flows.**  The row a packet lands in within `OWN_MARK_TTL` of a mark of its
key is the program's own exactly when no tick between the two has archived the key's row, or the key
has been marked again since. -/
theorem own_iff_not_swept (hs : MonitorReachable s) {mark : MonitorEvent} {t : Instant}
    (hmark : mark.marked = some k) (ht : mark.time = some t) (h₁ : MonitorStep s mark s₁)
    (hrun : Run MonitorStep s₁ es s₂) {dir : Direction} {pkt : Bytes} {now : Instant}
    (h₃ : MonitorStep s₂ (.record dir pkt now) s₃) {p : ParsedPacket}
    (hp : parse pkt = .ok (some p)) (hkey : Inner.keyOf dir p = k)
    (horder : InOrder (mark :: es ++ [.record dir pkt now]))
    (hlt : durationSince now t < OWN_MARK_TTL) {f : Flow} (hf : s₃.flows.lookup k = some f) :
    f.origin = .intel ↔ ¬ MarkSwept k s₁ es := by
  have hapart := apart_reachable hs
  have htime : ∀ e' ∈ es, ∀ now' ∈ e'.time, t ≤ now' ∧ durationSince now' t < OWN_MARK_TTL := by
    intro e' he' now' hnow'
    obtain ⟨hle, hle'⟩ := horder.between ht rfl he' hnow'
    exact ⟨hle, Nat.lt_of_le_of_lt (Nat.sub_le_sub_right hle' t) hlt⟩
  have hstand := standing_run hapart hmark ht h₁ hrun htime
  rcases Inner.record_lands ((hapart.run (.one h₁)).run hrun) h₃.apply with ⟨-, hno⟩ | ⟨p', hp', hl⟩
  · rw [← hkey, hno p hp] at hf
    cases hf
  · rw [hp] at hp'
    cases hp'
    have horigin := hl.origin k
    rw [hkey, if_pos rfl, Inner.originOf, hf, Option.map_some, Option.some.injEq] at horigin
    rw [horigin, hstand.landing]

end Runs

/-! ### A mark that went to a row -/

/-- A mark after 61 seconds of the flow from 10.0.0.1:40000 to 1.1.1.1:9999. -/
def lateMark : MonitorEvent := .markOwn (.v4 ⟨1, 1, 1, 1⟩) 9999 40000 true (secs 61)

/-- A packet of the flow, the mark, a tick that leaves the flows of `visit` live, and a packet after
90 seconds.  Also returns the origin of the flow's row, and whether the orders of the tick's walks
were orders of the table. -/
def markedRun (now : Instant) (visit : List FlowKey) :
    Checked ((Inner × Inner × Inner × Inner) × Option Origin × Bool) := letI := nothingRandom; do
  let s ← (Inner.new 0 0 PEER_ARENA).record saturating .up aSyn 0
  let s₁ ← s.apply saturating lateMark
  let s₂ ← s₁.apply saturating (.tick now [tcpKey] visit)
  let s₃ ← s₂.record saturating .up aSyn (secs 90)
  return ((s, s₁, s₂, s₃), s₃.originOf tcpKey, [tcpKey].toFinset = s₁.flows.keys ∧
    visit.toFinset = (s₁.flows.retain fun _ f => !Inner.isIdle now f).keys)

theorem aSyn_flow : ∃ p, @parse nothingRandom aSyn = .ok (some p) ∧ Inner.keyOf .up p = tcpKey := by
  have h : (@parse nothingRandom aSyn).map (Option.map (Inner.keyOf .up)) = .ok (some tcpKey) := by
    decide +kernel
  cases hp : @parse nothingRandom aSyn with
  | error err => rw [hp] at h; cases h
  | ok p =>
      rw [hp] at h
      cases p with
      | none => cases h
      | some p => exact ⟨p, rfl, Option.some.inj (Except.ok.inj h)⟩

theorem steps_of_markedRun {now : Instant} {visit : List FlowKey} {o : Origin} (hv : visit.Nodup)
    (h : (markedRun now visit).map Prod.snd = .ok (some o, true)) :
    letI := nothingRandom
    ∃ s s₁ s₂ s₃ f, MonitorReachable s ∧ MonitorStep s lateMark s₁ ∧
      MonitorStep s₁ (.tick now [tcpKey] visit) s₂ ∧
      MonitorStep s₂ (.record .up aSyn (secs 90)) s₃ ∧
      s₃.flows.lookup tcpKey = some f ∧ f.origin = o := by
  let := nothingRandom
  cases hr : markedRun now visit with
  | error err => rw [hr] at h; cases h
  | ok r =>
      rw [hr] at h
      obtain ⟨s, e, hr⟩ := bind_eq_ok.mp hr
      obtain ⟨s₁, e₁, hr⟩ := bind_eq_ok.mp hr
      obtain ⟨s₂, e₂, hr⟩ := bind_eq_ok.mp hr
      obtain ⟨s₃, e₃, hr⟩ := bind_eq_ok.mp hr
      cases hr
      injection h with h
      injection h with ho hb
      obtain ⟨horder, hvisit⟩ := of_decide_eq_true hb
      obtain ⟨f, hf, ho⟩ := Option.map_eq_some_iff.mp ho
      have hfirst : MonitorStep (.new 0 0 PEER_ARENA) (.record .up aSyn 0) s := ⟨trivial, e⟩
      exact ⟨s, s₁, s₂, s₃, f, reachable_new.run (.one hfirst), ⟨trivial, e₁⟩,
        ⟨⟨enumerates_iff.mpr ⟨by decide, horder⟩, enumerates_iff.mpr ⟨hv, hvisit⟩⟩, e₂⟩,
        ⟨trivial, e₃⟩, hf, ho⟩

/-- A tick that finds the row idle for 89 seconds leaves it. -/
theorem own_iff_not_swept_live : ∃ (s₁ : Inner) (f : Flow), f.origin = .intel ∧
    (f.origin = .intel ↔
      ¬ @MarkSwept nothingRandom tcpKey s₁ [.tick (secs 89) [tcpKey] [tcpKey]]) := by
  let := nothingRandom
  obtain ⟨s, s₁, s₂, s₃, f, hs, h₁, h₂, h₃, hf, ho⟩ :=
    steps_of_markedRun (by decide : [tcpKey].Nodup)
      (by decide +kernel : (markedRun (secs 89) [tcpKey]).map Prod.snd = .ok (some .intel, true))
  obtain ⟨p, hp, hkey⟩ := aSyn_flow
  exact ⟨s₁, f, ho, own_iff_not_swept hs rfl rfl h₁ (.one h₂) h₃ hp hkey (by decide) (by decide)
    hf⟩

/-- A second later the tick takes the row and its mark, and the next packet opens a row that is the
host's. -/
theorem own_lost : letI := nothingRandom
    ¬ ∀ (s s₁ s₂ s₃ : Inner) (k : FlowKey) (mark : MonitorEvent) (t : Instant)
      (es : List MonitorEvent) (dir : Direction) (pkt : Bytes) (now : Instant) (p : ParsedPacket)
      (f : Flow), MonitorReachable s → mark.marked = some k → mark.time = some t →
        MonitorStep s mark s₁ → Run MonitorStep s₁ es s₂ → MonitorStep s₂ (.record dir pkt now) s₃ →
        parse pkt = .ok (some p) → Inner.keyOf dir p = k →
        InOrder (mark :: es ++ [.record dir pkt now]) → durationSince now t < OWN_MARK_TTL →
        s₃.flows.lookup k = some f → f.origin = .intel := by
  let := nothingRandom
  intro h
  obtain ⟨s, s₁, s₂, s₃, f, hs, h₁, h₂, h₃, hf, ho⟩ :=
    steps_of_markedRun List.nodup_nil
      (by decide +kernel : (markedRun (secs 90) []).map Prod.snd = .ok (some .host, true))
  obtain ⟨p, hp, hkey⟩ := aSyn_flow
  have hintel := h s s₁ s₂ s₃ _ _ _ _ _ _ _ p f hs rfl rfl h₁ (.one h₂) h₃ hp hkey (by decide)
    (by decide) hf
  rw [ho] at hintel
  cases hintel

end Tunnel.Inspect
