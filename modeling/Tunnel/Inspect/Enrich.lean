import Tunnel.Inspect.Convergence
import Tunnel.Support.Asking

/-!
# Inspect — Asking for networks

`enrich_candidate` names a host whose network is to be looked up, and `enrich` takes the answer, for
the host's whole block.  The answers are cached, up to `ASN_CACHE_MAX` of them: an answer for which
there is no room empties the cache.  The arena holds twice as many hosts.

A host without a network is not asked for while its block is cached, so what an emptied cache forgets
is asked for again.

* `enrichment_quiesces_iff`: in any arena, with any cache and whatever the blocks answer, no block is
  asked for twice and the questions come to an end exactly when `enrich` never empties the cache
  while a host is without a network whose block was asked for before.
* `enrichment_thrashes`: hosts of 4097 blocks that answer nothing.
-/

namespace Tunnel.Inspect
open Support

/-! ### The model -/

/-- Host `ip` is one to look up. -/
def PeerArena.Wants (a : PeerArena) (ip : IpAddr) : Prop :=
  isLookupWorthy ip = true ∧ ∃ e, a.get ip = .ok (some e) ∧ e.asn = none

/-- A round: `enrich_candidate` and, where it names a host, `enrich` with what the host's block
answers.  Also returns the host. -/
def Inner.round (ans : IpAddr → Option AsnInfo) (s : Inner) : Checked (Option IpAddr × Inner) := do
  let (found, s) ← s.enrichCandidate
  match found with
  | none => return (none, s)
  | some ip => return (some ip, ← s.enrich ip (ans (prefixBase ip)))

/-- `n` rounds.  Also returns the blocks that were asked for, in order. -/
def Inner.rounds (ans : IpAddr → Option AsnInfo) : ℕ → Inner → Checked (List IpAddr × Inner)
  | 0, s => return ([], s)
  | n + 1, s => do
    let (asked, s) ← rounds ans n s
    let (found, s) ← s.round ans
    return (asked ++ (found.map prefixBase).toList, s)

/-! ### The hosts that want a network -/

namespace HostList

variable {l : HostList} {ip j : IpAddr} {info : AsnInfo}

/-- `Wants`, of the hosts. -/
def Wants (l : HostList) (ip : IpAddr) : Prop :=
  isLookupWorthy ip = true ∧ ∃ h, l.find ip = some h ∧ h.asn = none

theorem wants_iff_mem (hd : (l.hosts.map Host.ip).Nodup) :
    l.Wants ip ↔ isLookupWorthy ip = true ∧ ∃ h ∈ l.hosts, h.ip = ip ∧ h.asn = none := by
  simp only [Wants, find, Recency.find_eq_some hd, and_assoc]

theorem wants_setAsn : (l.setAsn ip info).Wants j ↔ j ≠ ip ∧ l.Wants j := by
  have hfind : (l.setAsn ip info).find j =
      (l.find j).map fun h => if h.ip = ip then { h with asn := some info } else h :=
    Recency.find_update (f := fun h : Host => { h with asn := some info }) (fun _ => rfl) j
  rw [Wants, hfind, Wants]
  cases hl : l.find j with
  | none => simp
  | some h =>
      have hip : h.ip = j := Recency.key_of_find hl
      by_cases hj : j = ip <;> simp [hip, hj]

end HostList

namespace Simulates

variable {a : PeerArena} {nodes : List (UInt32 × Host)} {l : HostList} {ip : IpAddr}

theorem wants_iff (h : Simulates a nodes l) : a.Wants ip ↔ l.Wants ip := by
  obtain ⟨e, he, hb⟩ := h.get ip
  rw [PeerArena.Wants, he, HostList.Wants]
  refine and_congr_right fun _ => ?_
  cases e with
  | none => cases hl : l.find ip <;> simp_all
  | some e =>
      cases hl : l.find ip with
      | none => rw [hl] at hb; cases hb
      | some x =>
          rw [hl] at hb
          have hasn : e.asn = x.asn := congrArg PeerEntry.asn (Option.some.inj hb)
          simp [hasn]

theorem wants_of_entry (h : Simulates a nodes l) {es : List PeerEntry}
    (hes : es.map PeerEntry.bare = l.hosts.map Host.entry) :
    l.Wants ip ↔ isLookupWorthy ip = true ∧ ∃ e ∈ es, e.ip = ip ∧ e.asn = none := by
  have hb : (∃ b ∈ es.map PeerEntry.bare, b.ip = ip ∧ b.asn = none) ↔
      ∃ b ∈ l.hosts.map Host.entry, b.ip = ip ∧ b.asn = none := by rw [hes]
  simp only [List.mem_map, exists_exists_and_eq_and] at hb
  rw [HostList.wants_iff_mem h.nodup]
  exact and_congr_right fun _ => hb.symm

theorem finite_wants (h : Simulates a nodes l) : {ip | a.Wants ip}.Finite := by
  refine (l.hosts.map Host.ip).toFinset.finite_toSet.subset fun ip hip => ?_
  obtain ⟨-, x, hx, hk, -⟩ := (HostList.wants_iff_mem h.nodup).mp (h.wants_iff.mp hip)
  simpa using ⟨x, hx, hk⟩

end Simulates

/-! ### The scan -/

namespace Inner

variable {s s₁ s' : Inner} {nodes : List (UInt32 × Host)} {l : HostList} {ip : IpAddr}

/-- What the walk finds: a host of an unknown block, or none if there is none; and hosts of known
blocks, with what is known. -/
theorem findCandidate_spec (cache : Table IpAddr (Option AsnInfo)) (es : List PeerEntry) :
    (∀ ip, (findCandidate cache es).1 = some ip → cache.lookup (prefixBase ip) = none ∧
        isLookupWorthy ip = true ∧ ∃ e ∈ es, e.ip = ip ∧ e.asn = none) ∧
      ((findCandidate cache es).1 = none → ∀ e ∈ es, e.asn = none → isLookupWorthy e.ip = true →
        cache.lookup (prefixBase e.ip) ≠ none) ∧
      ∀ c ∈ (findCandidate cache es).2, cache.lookup (prefixBase c.1) = some c.2 := by
  induction es with
  | nil => exact ⟨nofun, fun _ => by simp, by simp [findCandidate]⟩
  | cons e es ih =>
      obtain ⟨ihsome, ihnone, ihcached⟩ := ih
      by_cases hskip : (e.asn.isSome || !isLookupWorthy e.ip) = true
      · rw [findCandidate, if_pos hskip]
        refine ⟨fun ip hip => ?_, fun hn e' he' => ?_, ihcached⟩
        · obtain ⟨hk, hw, e', he', h'⟩ := ihsome ip hip
          exact ⟨hk, hw, e', List.mem_cons_of_mem _ he', h'⟩
        · rcases List.mem_cons.mp he' with rfl | he'
          · intro hasn hw
            simp [hasn, hw] at hskip
          · exact ihnone hn e' he'
      · rw [findCandidate, if_neg hskip]
        simp only [Bool.or_eq_true, Bool.not_eq_true', not_or, Bool.not_eq_true, Bool.not_eq_false,
          Option.isSome_eq_false_iff, Option.isNone_iff_eq_none] at hskip
        cases hk : cache.lookup (prefixBase e.ip) with
        | none =>
            refine ⟨fun ip hip => ?_, nofun, by simp⟩
            cases hip
            exact ⟨hk, hskip.2, e, List.mem_cons_self .., rfl, hskip.1⟩
        | some info =>
            refine ⟨fun ip hip => ?_, fun hn e' he' => ?_, fun c hc => ?_⟩
            · obtain ⟨hk, hw, e', he', h'⟩ := ihsome ip hip
              exact ⟨hk, hw, e', List.mem_cons_of_mem _ he', h'⟩
            · rcases List.mem_cons.mp he' with rfl | he'
              · intro _ _
                rw [hk]
                nofun
              · exact ihnone hn e' he'
            · rcases List.mem_cons.mp hc with rfl | hc
              · exact hk
              · exact ihcached c hc

/-- The hosts that are filled in want nothing any more; no other changes. -/
theorem fillCached_wants {a : PeerArena} (h : Simulates a nodes l)
    (cached : List (IpAddr × Option AsnInfo)) :
    ∃ a' nodes' l', fillCached cached a = .ok a' ∧ Simulates a' nodes' l' ∧
      (∀ j, l'.Wants j → l.Wants j) ∧
      ∀ j, l.Wants j → (∀ info, (j, info) ∉ cached) → l'.Wants j := by
  induction cached generalizing a nodes l with
  | nil => exact ⟨a, nodes, l, rfl, h, fun _ => id, fun _ hj _ => hj⟩
  | cons c cached ih =>
      obtain ⟨ip, info | info⟩ := c
      · obtain ⟨a', nodes', l', e, h', hsub, hkept⟩ := ih h
        exact ⟨a', nodes', l', e, h', hsub, fun j hj hn => hkept j hj fun info hm =>
          hn info (List.mem_cons_of_mem _ hm)⟩
      · obtain ⟨a₁, nodes₁, e₁, h₁⟩ := h.setAsn ip info
        obtain ⟨a', nodes', l', e, h', hsub, hkept⟩ := ih h₁
        refine ⟨a', nodes', l', by rw [fillCached, e₁, ok_bind, e], h',
          fun j hj => (HostList.wants_setAsn.mp (hsub j hj)).2, fun j hj hn => ?_⟩
        refine hkept j (HostList.wants_setAsn.mpr ⟨?_, hj⟩) fun info hm =>
          hn info (List.mem_cons_of_mem _ hm)
        rintro rfl
        exact hn _ (List.mem_cons_self ..)

/-- What a scan finds, and what it leaves. -/
structure Scanned (s s₁ : Inner) (found : Option IpAddr) : Prop where
  asnCache : s₁.asnCache = s.asnCache
  sub : ∀ j, s₁.peers.Wants j → s.peers.Wants j
  kept : ∀ j, s.peers.Wants j → s.asnCache.lookup (prefixBase j) = none → s₁.peers.Wants j
  some : ∀ ip, found = some ip → s.peers.Wants ip ∧ s.asnCache.lookup (prefixBase ip) = none
  none : found = none → ∀ j, s.peers.Wants j → s.asnCache.lookup (prefixBase j) ≠ none

theorem enrichCandidate_scanned (h : Simulates s.peers nodes l) :
    ∃ found s₁ nodes₁ l₁, s.enrichCandidate = .ok (found, s₁) ∧ Simulates s₁.peers nodes₁ l₁ ∧
      Scanned s s₁ found := by
  obtain ⟨es, hes, hbare, -⟩ := h.iterMru
  obtain ⟨hsome, hnone, hcached⟩ := findCandidate_spec s.asnCache es
  obtain ⟨a', nodes₁, l₁, e, h₁, hsub, hkept⟩ :=
    fillCached_wants h (findCandidate s.asnCache es).2
  refine ⟨(findCandidate s.asnCache es).1, { s with peers := a' }, nodes₁, l₁, ?_, h₁, rfl,
    fun j hj => ?_, fun j hj hk => ?_, fun ip hip => ?_, fun hn j hj => ?_⟩
  · rw [enrichCandidate, hes, ok_bind]
    dsimp only
    rw [e, ok_bind]
    rfl
  · exact h.wants_iff.mpr (hsub j (h₁.wants_iff.mp hj))
  · refine h₁.wants_iff.mpr (hkept j (h.wants_iff.mp hj) fun info hm => ?_)
    rw [hcached _ hm] at hk
    cases hk
  · obtain ⟨hk, hw⟩ := hsome ip hip
    exact ⟨h.wants_iff.mpr ((h.wants_of_entry hbare).mpr hw), hk⟩
  · obtain ⟨hw, e, he, rfl, hasn⟩ := (h.wants_of_entry hbare).mp (h.wants_iff.mp hj)
    exact hnone hn e he hasn hw

/-- What an answer leaves. -/
structure Answered (s s' : Inner) (ip : IpAddr) (info : Option AsnInfo) : Prop where
  asnCache : s'.asnCache = (if ASN_CACHE_MAX ≤ s.asnCache.size then ∅ else s.asnCache).insert
    (prefixBase ip) info
  sub : ∀ j, s'.peers.Wants j → s.peers.Wants j
  kept : ∀ j, s.peers.Wants j → j ≠ ip → s'.peers.Wants j

theorem enrich_answered (h : Simulates s.peers nodes l) (ip : IpAddr) (info : Option AsnInfo) :
    ∃ s' nodes' l', s.enrich ip info = .ok s' ∧ Simulates s'.peers nodes' l' ∧
      Answered s s' ip info := by
  cases info with
  | none => exact ⟨_, nodes, l, rfl, h, rfl, fun _ => id, fun _ hj _ => hj⟩
  | some info =>
      obtain ⟨a', nodes', e, h'⟩ := h.setAsn ip info
      refine ⟨{ s with
          asnCache := (if ASN_CACHE_MAX ≤ s.asnCache.size then ∅ else s.asnCache).insert
            (prefixBase ip) (some info)
          peers := a' }, nodes', l.setAsn ip info, ?_, h', rfl, fun j hj => ?_, fun j hj hne => ?_⟩
      · rw [enrich]
        dsimp only
        rw [e]
        rfl
      · exact h.wants_iff.mpr (HostList.wants_setAsn.mp (h'.wants_iff.mp hj)).2
      · exact h'.wants_iff.mpr (HostList.wants_setAsn.mpr ⟨hne, h.wants_iff.mp hj⟩)

/-! ### Rounds -/

/-- The monitor as one that asks, having asked for these blocks. -/
def asking (s : Inner) (asked : List IpAddr) : Asking IpAddr IpAddr :=
  ⟨{ip | s.peers.Wants ip}, {k | s.asnCache.lookup k ≠ none}, asked⟩

theorem round_spec (h : Simulates s.peers nodes l) (ans : IpAddr → Option AsnInfo)
    (asked : List IpAddr) : ∃ found s₁ s' nodes' l', s.enrichCandidate = .ok (found, s₁) ∧
      s.round ans = .ok (found, s') ∧ Simulates s'.peers nodes' l' ∧
      Asking.Round prefixBase (s.asking asked) {ip | s₁.peers.Wants ip}
        (found.map fun ip => (prefixBase ip, decide (ASN_CACHE_MAX ≤ s₁.asnCache.size)))
        (s'.asking (asked ++ (found.map prefixBase).toList)) := by
  obtain ⟨found, s₁, nodes₁, l₁, e₁, h₁, hscan⟩ := enrichCandidate_scanned h
  cases found with
  | none =>
      refine ⟨none, s₁, s₁, nodes₁, l₁, e₁, by rw [round, e₁]; rfl, h₁, hscan.sub, ?_, ?_⟩
      · exact fun j hj hk => hscan.kept j hj (not_not.mp hk)
      · rw [asking, asking, hscan.asnCache, Option.map_none, Option.map_none, Option.toList_none,
          List.append_nil]
        exact .rest (hscan.none rfl)
  | some ip =>
      obtain ⟨s', nodes', l', e', h', ha⟩ := enrich_answered h₁ ip (ans (prefixBase ip))
      obtain ⟨hip, hk⟩ := hscan.some ip rfl
      refine ⟨some ip, s₁, s', nodes', l', e₁, ?_, h', hscan.sub, ?_, ?_⟩
      · rw [round, e₁, ok_bind]
        dsimp only
        rw [e']
        rfl
      · exact fun j hj hk => hscan.kept j hj (not_not.mp hk)
      · have hknown : {k | s'.asnCache.lookup k ≠ none} = insert (prefixBase ip)
            (if decide (ASN_CACHE_MAX ≤ s₁.asnCache.size) then ∅
              else {k | s.asnCache.lookup k ≠ none}) := by
          ext k
          rw [Set.mem_ofPred_eq, ha.asnCache, Finmap.lookup_insert_eq, Set.mem_insert_iff,
            hscan.asnCache]
          by_cases hkey : k = prefixBase ip <;> by_cases hfull : ASN_CACHE_MAX ≤ s.asnCache.size <;>
            simp [hkey, hfull]
        rw [asking, asking, hknown]
        exact .ask _ (hscan.kept ip hip hk) (not_not.mpr hk) ha.sub
          fun j hj hne => ha.kept j hj fun he => hne (by rw [he])

/-- No block is asked for twice, and from some round on there is nothing to ask. -/
def Quiesces (ans : IpAddr → Option AsnInfo) (s : Inner) : Prop :=
  (∀ n asked s', s.rounds ans n = .ok (asked, s') → asked.Nodup) ∧
    ∃ N, ∀ n, N ≤ n → ∃ asked s' s₁, s.rounds ans n = .ok (asked, s') ∧
      s'.enrichCandidate = .ok (none, s₁)

/-- No answer finds the cache full while a host wants a network whose block was asked for. -/
def Retains (ans : IpAddr → Option AsnInfo) (s : Inner) : Prop :=
  ∀ n asked s' ip s₁, s.rounds ans n = .ok (asked, s') →
    s'.enrichCandidate = .ok (some ip, s₁) → ASN_CACHE_MAX ≤ s₁.asnCache.size →
      ∀ j, s₁.peers.Wants j → prefixBase j ∉ asked

/-- The rounds, each with what its scan finds and leaves. -/
theorem rounds_spec (h : Simulates s.peers nodes l) (ans : IpAddr → Option AsnInfo) :
    ∃ (asked : ℕ → List IpAddr) (found : ℕ → Option IpAddr) (state scanned : ℕ → Inner),
      asked 0 = [] ∧ state 0 = s ∧ (∀ n, s.rounds ans n = .ok (asked n, state n)) ∧
      (∀ n, (state n).enrichCandidate = .ok (found n, scanned n)) ∧
      ∀ n, Asking.Round prefixBase ((state n).asking (asked n)) {ip | (scanned n).peers.Wants ip}
        ((found n).map fun ip => (prefixBase ip, decide (ASN_CACHE_MAX ≤ (scanned n).asnCache.size)))
        ((state (n + 1)).asking (asked (n + 1))) := by
  have hrounds : ∀ n, ∃ asked s' nodes' l', s.rounds ans n = .ok (asked, s') ∧
      Simulates s'.peers nodes' l' := by
    intro n
    induction n with
    | zero => exact ⟨[], s, nodes, l, rfl, h⟩
    | succ n ih =>
        obtain ⟨asked, s', nodes', l', e, h'⟩ := ih
        obtain ⟨found, -, s'', nodes'', l'', -, e', h'', -⟩ := round_spec h' ans asked
        refine ⟨asked ++ (found.map prefixBase).toList, s'', nodes'', l'', ?_, h''⟩
        rw [rounds, e, ok_bind]
        dsimp only
        rw [e']
        rfl
  choose asked state nodes' l' e hsim using hrounds
  choose found scanned s' _ _ hscan hround _ hstep using fun n => round_spec (hsim n) ans (asked n)
  have hnext : ∀ n, asked (n + 1) = asked n ++ ((found n).map prefixBase).toList ∧
      state (n + 1) = s' n := by
    intro n
    have hn := e (n + 1)
    rw [rounds, e n, ok_bind] at hn
    dsimp only at hn
    rw [hround n, ok_bind] at hn
    injection hn with hn
    injection hn with h₁ h₂
    exact ⟨h₁.symm, h₂.symm⟩
  have h₀ : asked 0 = [] ∧ state 0 = s := by
    have h₀ := e 0
    injection h₀ with h₀
    injection h₀ with h₁ h₂
    exact ⟨h₁.symm, h₂.symm⟩
  refine ⟨asked, found, state, scanned, h₀.1, h₀.2, e, hscan, fun n => ?_⟩
  rw [(hnext n).1, (hnext n).2]
  exact hstep n

end Inner

/-- **Enrichment quiesces.**  Whatever is in a well-formed arena and in the cache, and whatever the
blocks answer: no block is asked for twice and the questions come to an end exactly when no answer
empties the cache while a host still wants a network whose block was asked for before. -/
theorem enrichment_quiesces_iff {s : Inner} {nodes : List (UInt32 × Host)} {l : HostList}
    (h : Simulates s.peers nodes l) (ans : IpAddr → Option AsnInfo) :
    s.Quiesces ans ↔ s.Retains ans := by
  obtain ⟨asked, found, state, scanned, h₀, hs₀, e, hscan, hstep⟩ := Inner.rounds_spec h ans
  have hfin : ((state 0).asking (asked 0)).wanting.Finite := hs₀ ▸ h.finite_wants
  have hiff := Asking.quiesces_iff hstep h₀ hfin
  have hquiesces : s.Quiesces ans ↔ (∀ n, (asked n).Nodup) ∧ ∃ N, ∀ j, N ≤ j → found j = none := by
    refine and_congr ⟨fun hn n => hn n _ _ (e n), fun hn n asked' s' e' => ?_⟩
      (exists_congr fun N => forall₂_congr fun n _ => ⟨?_, fun hn => ?_⟩)
    · rw [e n] at e'
      cases e'
      exact hn n
    · rintro ⟨asked', s', s₁, e', e₁⟩
      rw [e n] at e'
      cases e'
      rw [hscan n] at e₁
      exact (Prod.mk.inj (Except.ok.inj e₁)).1
    · exact ⟨_, _, _, e n, hn ▸ hscan n⟩
  have hretains : s.Retains ans ↔ ∀ n ip, found n = some ip →
      ASN_CACHE_MAX ≤ (scanned n).asnCache.size →
        ∀ j, (scanned n).peers.Wants j → prefixBase j ∉ asked n := by
    refine ⟨fun hr n ip hn => hr n _ _ ip _ (e n) (hn ▸ hscan n), fun hr n asked' s' ip s₁ e' e₁ => ?_⟩
    rw [e n] at e'
    cases e'
    rw [hscan n] at e₁
    obtain ⟨hn, rfl⟩ := Prod.mk.inj (Except.ok.inj e₁)
    exact hr n ip hn
  rw [hquiesces, hretains]
  simpa [Option.map_eq_some_iff, Inner.asking] using hiff

/-! ### More blocks than the cache can hold -/

/-- Nothing answers, and the cache keeps no more than it is meant to. -/
structure Inner.Unanswered (s : Inner) : Prop where
  negative : ∀ k info, s.asnCache.lookup k = some info → info = none
  size : s.asnCache.size ≤ ASN_CACHE_MAX

namespace Inner

variable {s s' : Inner} {nodes : List (UInt32 × Host)} {l : HostList}

theorem fillCached_none {a : PeerArena} {cached : List (IpAddr × Option AsnInfo)}
    (h : ∀ c ∈ cached, c.2 = none) : fillCached cached a = .ok a := by
  induction cached with
  | nil => rfl
  | cons c cached ih =>
      obtain ⟨ip, info⟩ := c
      obtain rfl : info = none := h _ (List.mem_cons_self ..)
      exact ih fun c hc => h c (List.mem_cons_of_mem _ hc)

theorem enrichCandidate_unanswered (hu : s.Unanswered) {found : Option IpAddr}
    (e : s.enrichCandidate = .ok (found, s')) : s' = s := by
  obtain ⟨es, -, e⟩ := bind_eq_ok.mp e
  obtain ⟨a, e₁, e⟩ := bind_eq_ok.mp e
  have hnone : ∀ c ∈ (findCandidate s.asnCache es).2, c.2 = none := fun c hc =>
    hu.negative _ _ ((findCandidate_spec s.asnCache es).2.2 c hc)
  rw [fillCached_none hnone] at e₁
  cases e₁
  cases e
  rfl

/-- A block that answers nothing leaves the hosts as they were. -/
theorem round_unanswered (hu : s.Unanswered) {found : Option IpAddr}
    (e : s.round (fun _ => none) = .ok (found, s')) : s'.peers = s.peers ∧ s'.Unanswered := by
  obtain ⟨⟨found₁, s₁⟩, e₁, e⟩ := bind_eq_ok.mp e
  obtain rfl := enrichCandidate_unanswered hu e₁
  cases found₁ with
  | none =>
      cases e
      exact ⟨rfl, hu⟩
  | some ip =>
      cases e
      refine ⟨rfl, fun k info hk => ?_, ?_⟩
      · dsimp only at hk
        rw [Finmap.lookup_insert_eq] at hk
        split at hk
        · exact (Option.some.inj hk).symm
        · split at hk
          · simp at hk
          · exact hu.negative k info hk
      · refine (Finmap.size_insert_le _ _ _).trans ?_
        split
        · decide
        · next hroom => exact Nat.lt_of_not_le hroom

theorem rounds_unanswered (hu : s.Unanswered) {n : ℕ} {asked : List IpAddr}
    (e : s.rounds (fun _ => none) n = .ok (asked, s')) : s'.peers = s.peers ∧ s'.Unanswered := by
  induction n generalizing asked s' with
  | zero =>
      cases e
      exact ⟨rfl, hu⟩
  | succ n ih =>
      obtain ⟨⟨asked₁, s₁⟩, e₁, e⟩ := bind_eq_ok.mp e
      obtain ⟨⟨found, s₂⟩, e₂, e⟩ := bind_eq_ok.mp e
      cases e
      obtain ⟨hp₁, hu₁⟩ := ih e₁
      obtain ⟨hp₂, hu₂⟩ := round_unanswered hu₁ e₂
      exact ⟨hp₂.trans hp₁, hu₂⟩

/-- Where more blocks answer nothing than the cache can hold, there is always one to ask for. -/
theorem not_quiesces_of_many (h : Simulates s.peers nodes l) (hu : s.Unanswered) {m : ℕ}
    {f : ℕ → IpAddr} (hw : ∀ i < m, s.peers.Wants (f i))
    (hinj : Set.InjOn (prefixBase ∘ f) (Finset.range m)) (hm : ASN_CACHE_MAX < m) :
    ¬ s.Quiesces fun _ => none := by
  rintro ⟨-, N, hN⟩
  obtain ⟨asked, s', s₁, e, e₁⟩ := hN N (Nat.le_refl N)
  obtain ⟨hp, hu'⟩ := rounds_unanswered hu e
  obtain ⟨found, s₂, -, -, e₂, -, hscan⟩ := enrichCandidate_scanned (s := s') (hp ▸ h)
  rw [e₁] at e₂
  cases e₂
  have hcached : ∀ i ∈ Finset.range m, (prefixBase ∘ f) i ∈ s'.asnCache.keys := by
    intro i hi
    rw [Finmap.mem_keys, ← Finmap.lookup_isSome, Option.isSome_iff_ne_none]
    exact hscan.none rfl (f i) (hp ▸ hw i (Finset.mem_range.mp hi))
  have hcard := Finset.card_le_card_of_injOn _ hcached hinj
  rw [Finset.card_range, ← Finmap.size_eq_card_keys] at hcard
  exact absurd (hcard.trans hu'.size) (Nat.not_le.mpr hm)

end Inner

/-- The first host of the `n`-th /24 of 8.0.0.0/8. -/
def hostOf (n : ℕ) : IpAddr := .v4 ⟨8, UInt8.ofNat (n / 256), UInt8.ofNat n, 1⟩

theorem hostOf_worthy (n : ℕ) : isLookupWorthy (hostOf n) = true := rfl

theorem prefixBase_hostOf_inj {n m : ℕ} (hn : n < 65536) (hm : m < 65536)
    (h : prefixBase (hostOf n) = prefixBase (hostOf m)) : n = m := by
  injection h with h
  injection h with _ hb hc
  have hb' := congrArg UInt8.toNat hb
  have hc' := congrArg UInt8.toNat hc
  simp only [UInt8.toNat_ofNat'] at hb' hc'
  omega

/-- An arena that has seen the first `n` of these hosts, and looked nothing up. -/
theorem exists_seen (cap n : ℕ) (hn : n ≤ cap) (hmax : n ≤ 65536) : ∃ a nodes l,
    Simulates a nodes l ∧ l.cap = max cap 1 ∧ (∀ h ∈ l.hosts, h.asn = none) ∧
      l.hosts.map Host.ip = ((List.range n).map hostOf).reverse := by
  induction n with
  | zero => exact ⟨_, [], _, .new cap, rfl, by simp [HostList.new], rfl⟩
  | succ n ih =>
      obtain ⟨a, nodes, l, h, hcap, hasn, hips⟩ := ih (by omega) (by omega)
      have hlen : nodes.length = n := by
        have hlen := congrArg List.length hips
        rw [h.hosts] at hlen
        simpa using hlen
      have hnew : hostOf n ∉ l.hosts.map Host.ip := by
        rw [hips]
        simp only [List.mem_reverse, List.mem_map, List.mem_range, not_exists, not_and]
        intro i hi he
        have := prefixBase_hostOf_inj (by omega) (by omega) (congrArg prefixBase he)
        omega
      have hroom : ¬ l.cap ≤ l.hosts.length := by
        rw [h.hosts, List.length_map, hlen, hcap]
        omega
      obtain ⟨a', nodes', -, h'⟩ := h.touch (by omega) (hostOf n) 0 0
      refine ⟨a', nodes', _, h', ?_, fun x hx => ?_, ?_⟩
      · exact (l.cap_perform (.touch (hostOf n) 0 0)).trans hcap
      · rw [HostList.hosts_touch, Recency.touch_new hnew, if_neg hroom] at hx
        rcases List.mem_cons.mp hx with rfl | hx
        · rfl
        · exact hasn x hx
      · rw [HostList.hosts_touch, Recency.touch_new hnew, if_neg hroom, List.map_cons, hips,
          List.range_succ, List.map_append, List.reverse_append]
        rfl

/-- A monitor that knows 4097 hosts, each of a block of its own. -/
theorem exists_crowded : ∃ (s : Inner) (nodes : List (UInt32 × Host)) (l : HostList),
    Simulates s.peers nodes l ∧ nodes.length ≤ PEER_ARENA ∧ l.cap = PEER_ARENA ∧ s.Unanswered ∧
      ∀ i < 4097, s.peers.Wants (hostOf i) := by
  obtain ⟨a, nodes, l, h, hcap, hasn, hips⟩ :=
    exists_seen PEER_ARENA 4097 (by decide) (by decide)
  have hcap' : l.cap = PEER_ARENA := hcap
  refine ⟨{ Inner.new 0 0 PEER_ARENA with peers := a }, nodes, l, h, ?_, hcap', ⟨?_, ?_⟩, ?_⟩
  · rw [← hcap', ← h.cap]
    exact h.le_cap
  · exact fun k info hk => absurd hk (by simp [Inner.new])
  · exact Nat.zero_le _
  · intro i hi
    refine h.wants_iff.mpr ((HostList.wants_iff_mem h.nodup).mpr ⟨hostOf_worthy i, ?_⟩)
    have hm : hostOf i ∈ l.hosts.map Host.ip := by
      rw [hips, List.mem_reverse]
      exact List.mem_map_of_mem (List.mem_range.mpr hi)
    obtain ⟨x, hx, hk⟩ := List.mem_map.mp hm
    exact ⟨x, hx, hk, hasn x hx⟩

/-- Of 4097 blocks one is always unknown. -/
theorem crowded_not_quiesces {s : Inner} {nodes : List (UInt32 × Host)} {l : HostList}
    (h : Simulates s.peers nodes l) (hu : s.Unanswered)
    (hw : ∀ i < 4097, s.peers.Wants (hostOf i)) : ¬ s.Quiesces fun _ => none := by
  refine Inner.not_quiesces_of_many h hu hw (fun i hi j hj he => ?_) (by decide)
  have hi' := Finset.mem_range.mp hi
  have hj' := Finset.mem_range.mp hj
  exact prefixBase_hostOf_inj (by omega) (by omega) he

/-- A full cache is emptied while a host wants a network whose block was asked for. -/
theorem enrichment_quiesces_crowded : ∃ s : Inner, (∀ i < 4097, s.peers.Wants (hostOf i)) ∧
    (s.Quiesces (fun _ => none) ↔ s.Retains fun _ => none) ∧ ¬ s.Retains fun _ => none := by
  obtain ⟨s, nodes, l, h, -, -, hu, hw⟩ := exists_crowded
  have hiff := enrichment_quiesces_iff h fun _ => none
  exact ⟨s, hw, hiff, fun hr => crowded_not_quiesces h hu hw (hiff.mpr hr)⟩

theorem enrichment_thrashes : ¬ ∀ (s : Inner) (nodes : List (UInt32 × Host)) (l : HostList)
    (ans : IpAddr → Option AsnInfo), Simulates s.peers nodes l → nodes.length ≤ PEER_ARENA →
      s.Quiesces ans := by
  intro h
  obtain ⟨s, nodes, l, hs, hlen, -, hu, hw⟩ := exists_crowded
  exact crowded_not_quiesces hs hu hw (h s nodes l _ hs hlen)

end Tunnel.Inspect
