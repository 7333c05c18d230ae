import Tunnel.Inspect.ArenaLinks
import Tunnel.Inspect.Hosts

/-!
# Inspect — The arena is a plain LRU

The slab, the index and the intrusive list of a host arena stand for a list of hosts
(`Simulates`).

* `Simulates.touch`, `Simulates.refresh`, `Simulates.setAsn`: each operation, on both levels.
* `Simulates.iterMru`, `Simulates.get`: what the arena says of its hosts.
* `simulates_after`: every sequence of operations, on both levels.
* `arena_refines_lru`: the law for every sequence of operations from an empty arena.
-/

namespace Tunnel.Inspect
open Support

/-! ### The simulation -/

/-- The arena holds the hosts of `l`, the slot of each given by `nodes`. -/
structure Simulates (a : PeerArena) (nodes : List (UInt32 × Host)) (l : HostList) : Prop where
  hosts : l.hosts = nodes.map Prod.snd
  ring : a.links.Ring NIL (nodes.map Prod.fst)
  shows : ∀ n ∈ nodes, a.entries[n.1.toNat]?.map PeerEntry.bare = some n.2.entry
  index : ∀ ip i, a.index.lookup ip = some i ↔ (i, ip) ∈ nodes.map fun n => (n.1, n.2.ip)
  nodup : (l.hosts.map Host.ip).Nodup
  size : a.index.size = nodes.length
  length : a.entries.length = nodes.length
  nextId : a.nextId = HostList.idOf l.issued.length
  cap : a.cap = l.cap
  pos : 0 < a.cap
  le_cap : nodes.length ≤ a.cap
  le_issued : nodes.length ≤ l.issued.length

namespace Simulates

variable {a : PeerArena} {nodes : List (UInt32 × Host)} {l : HostList}

theorem new (cap : ℕ) : Simulates (PeerArena.new cap) [] (HostList.new cap) where
  hosts := rfl
  ring := ⟨by simp, by simp [PeerArena.new, PeerArena.links, Links.Path]⟩
  shows := by simp
  index := by simp [PeerArena.new]
  nodup := by simp [HostList.new]
  size := rfl
  length := rfl
  nextId := rfl
  cap := rfl
  pos := by simp [PeerArena.new]
  le_cap := by simp
  le_issued := by simp

/-- A visited slot. -/
theorem slot (h : Simulates a nodes l) {n : UInt32 × Host} (hn : n ∈ nodes) :
    n.1 ≠ NIL ∧ n.1.toNat < a.entries.length := by
  refine ⟨?_, ?_⟩
  · rintro e
    exact (List.nodup_cons.mp h.ring.nodup).1 (e ▸ List.mem_map_of_mem hn)
  · by_contra hl
    have hs := h.shows n hn
    rw [List.getElem?_eq_none (by omega)] at hs
    cases hs

/-- The nodes of a ring are slots, or `NIL`. -/
theorem linked (h : Simulates a nodes l) {i : UInt32} (hi : i ∈ NIL :: nodes.map Prod.fst) :
    a.Linked i := by
  rcases List.mem_cons.mp hi with rfl | hi
  · exact .inl rfl
  · obtain ⟨n, hn, rfl⟩ := List.mem_map.mp hi
    exact .inr (h.slot hn).2

theorem nodup_slots (h : Simulates a nodes l) : (nodes.map Prod.fst).Nodup :=
  (List.nodup_cons.mp h.ring.nodup).2

theorem nodup_ips (h : Simulates a nodes l) : (nodes.map fun n => n.2.ip).Nodup := by
  have hd := h.nodup
  rw [h.hosts, List.map_map] at hd
  exact hd

variable {ys zs : List (UInt32 × Host)} {i : UInt32} {x y : Host}

/-- The entry of a slot. -/
theorem entry (h : Simulates a nodes l) (hn : (i, x) ∈ nodes) :
    ∃ hl : i.toNat < a.entries.length, a.entry i = .ok a.entries[i.toNat] ∧
      a.entries[i.toNat].bare = x.entry := by
  have hl := (h.slot hn).2
  have hs := h.shows _ hn
  rw [List.getElem?_eq_getElem hl, Option.map_some, Option.some.injEq] at hs
  exact ⟨hl, PeerArena.entry_eq hl, hs⟩

/-- One host changes in its place. -/
theorem modify (h : Simulates a (ys ++ (i, x) :: zs) l) {f : PeerEntry → PeerEntry}
    (hf : ∀ e : PeerEntry, e.bare = x.entry →
      (f e).bare = y.entry ∧ (f e).next = e.next ∧ (f e).prev = e.prev) (hy : y.ip = x.ip) :
    ∃ a', a.modify i f = .ok a' ∧ a'.head = a.head ∧
      Simulates a' (ys ++ (i, y) :: zs)
        { l with hosts := ys.map Prod.snd ++ y :: zs.map Prod.snd } := by
  obtain ⟨hl, -, he⟩ := h.entry (i := i) (x := x) (by simp)
  obtain ⟨hb, hn, hp⟩ := hf _ he
  have hi := (h.slot (n := (i, x)) (by simp)).1
  obtain ⟨hys, hzs⟩ := Recency.key_ne_of_split h.nodup_slots
  refine ⟨_, PeerArena.modify_eq hl f, rfl, ?_⟩
  constructor
  case hosts => simp
  case ring =>
    have hlinks : a.links = ⟨a.links.next, a.links.prev⟩ := rfl
    rw [PeerArena.links_set hl hi, hn, hp, Function.update_eq_self_iff.mpr,
      Function.update_eq_self_iff.mpr, ← hlinks]
    · simpa using h.ring
    · simp [PeerArena.links, hi, hl]
    · simp [PeerArena.links, hi, hl]
  case shows =>
    have hother : ∀ n : UInt32 × Host, n ∈ ys ++ (i, x) :: zs → n.1 ≠ i →
        (a.entries.set i.toNat (f a.entries[i.toNat]))[n.1.toNat]?.map PeerEntry.bare =
          some n.2.entry := by
      intro n hm hne
      rw [List.getElem?_set_ne fun e => hne (UInt32.toNat_inj.mp e.symm)]
      exact h.shows n hm
    intro n hn
    rcases List.mem_append.mp hn with hm | hm
    · exact hother n (by simp [hm]) (hys n hm)
    rcases List.mem_cons.mp hm with rfl | hm
    · simp [hl, hb]
    · exact hother n (by simp [hm]) (hzs n hm)
  case index =>
    intro ip j
    rw [h.index]
    simp [hy]
  case nodup =>
    have hd := h.nodup
    rw [h.hosts] at hd
    simpa [hy] using hd
  case size => simpa using h.size
  case length => simpa using h.length
  case nextId => exact h.nextId
  case cap => exact h.cap
  case pos => exact h.pos
  case le_cap => simpa using h.le_cap
  case le_issued => simpa using h.le_issued

/-- The first slot is the head. -/
theorem head_eq (h : Simulates a nodes l) :
    a.head = (nodes.map Prod.fst ++ [NIL]).head (by simp) := by
  rw [← h.ring.next_nil]
  simp [PeerArena.links]

/-- The last slot is the tail. -/
theorem tail_eq (h : Simulates a nodes l) :
    a.tail = (NIL :: nodes.map Prod.fst).getLast (by simp) := by
  rw [← h.ring.prev_nil]
  simp [PeerArena.links]

/-- The same hosts in another order. -/
theorem permute (h : Simulates a nodes l) {a' : PeerArena} {nodes' : List (UInt32 × Host)}
    (hs : PeerArena.SameHosts a a') (hp : nodes'.Perm nodes)
    (hr : a'.links.Ring NIL (nodes'.map Prod.fst)) :
    Simulates a' nodes' { l with hosts := nodes'.map Prod.snd } where
  hosts := rfl
  ring := hr
  shows n hn := by rw [hs.getElem?]; exact h.shows n (hp.mem_iff.mp hn)
  index ip i := by rw [hs.index, h.index]; exact (hp.map _).mem_iff.symm
  nodup := by
    have hd := h.nodup
    rw [h.hosts] at hd
    exact ((hp.map Prod.snd).map Host.ip).nodup_iff.mpr hd
  size := by rw [hs.index, h.size, hp.length_eq]
  length := by rw [hs.length, h.length, hp.length_eq]
  nextId := hs.nextId.trans h.nextId
  cap := hs.cap.trans h.cap
  pos := hs.cap ▸ h.pos
  le_cap := by rw [hp.length_eq, hs.cap]; exact h.le_cap
  le_issued := by rw [hp.length_eq]; exact h.le_issued

/-- A slot of the ring is unlinked. -/
theorem unlink (h : Simulates a (ys ++ (i, x) :: zs) l) :
    ∃ a', a.unlink i = .ok a' ∧ PeerArena.SameHosts a a' ∧ a'.links.next i = NIL ∧
      a'.links.prev i = NIL ∧ a'.links.Ring NIL ((ys ++ zs).map Prod.fst) := by
  obtain ⟨hi, hl⟩ := h.slot (n := (i, x)) (by simp)
  have hm : i ∈ (ys ++ (i, x) :: zs).map Prod.fst := by simp
  obtain ⟨⟨hn, -⟩, hp, -⟩ := h.ring.neighbours (List.mem_cons_of_mem NIL hm)
  obtain ⟨a', e, hlinks, hs⟩ := PeerArena.unlink_spec hl hi (h.linked hn) (h.linked hp)
  refine ⟨a', e, hs, by simp [hlinks, Links.unlink], by simp [hlinks, Links.unlink], ?_⟩
  have hr := h.ring.unlink hm
  obtain ⟨hys, -⟩ := Recency.key_ne_of_split h.nodup_slots
  have hni : i ∉ ys.map Prod.fst := by
    rintro hy
    obtain ⟨n, hn, he⟩ := List.mem_map.mp hy
    exact hys n hn he
  rw [List.map_append, List.map_cons, List.erase_append_right _ hni, List.erase_cons_head] at hr
  rw [hlinks, List.map_append]
  exact hr

/-- A host moves to the front. -/
theorem moveFront (h : Simulates a (ys ++ (i, x) :: zs) l) :
    ∃ a', (if a.head = i then .ok a else do (← a.unlink i).pushFront i) = Except.ok a' ∧
      Simulates a' ((i, x) :: (ys ++ zs))
        { l with hosts := x :: (ys.map Prod.snd ++ zs.map Prod.snd) } := by
  obtain ⟨hi, hl⟩ := h.slot (n := (i, x)) (by simp)
  obtain ⟨hys, hzs⟩ := Recency.key_ne_of_split h.nodup_slots
  have hperm : ((i, x) :: (ys ++ zs)).Perm (ys ++ (i, x) :: zs) := List.perm_middle.symm
  have hhosts : ((i, x) :: (ys ++ zs)).map Prod.snd = x :: (ys.map Prod.snd ++ zs.map Prod.snd) := by
    simp
  rw [← hhosts]
  by_cases hh : a.head = i
  · have hnil : ys = [] := by
      cases ys with
      | nil => rfl
      | cons y ys => exact absurd (h.head_eq.symm.trans hh) (hys y (by simp))
    subst hnil
    exact ⟨a, if_pos hh, h.permute (.refl a) hperm h.ring⟩
  · obtain ⟨a₁, e₁, hs₁, -, -, hr₁⟩ := h.unlink
    have hhead : a₁.Linked a₁.head := PeerArena.linked_head hr₁ fun j hj => by
      obtain ⟨n, hn, rfl⟩ := List.mem_map.mp hj
      exact hs₁.length ▸ (h.slot (hperm.subset (List.mem_cons_of_mem _ hn))).2
    obtain ⟨a₂, e₂, hl₂, hs₂⟩ := PeerArena.pushFront_spec (hs₁.length ▸ hl) hi hhead
    refine ⟨a₂, ?_, h.permute (hs₁.trans hs₂) hperm ?_⟩
    · rw [if_neg hh, e₁, ok_bind, e₂]
    · rw [hl₂]
      refine hr₁.pushFront hi ?_
      simp only [List.map_append, List.mem_append, List.mem_map, not_or, not_exists, not_and]
      exact ⟨hys, hzs⟩

/-- An id is issued. -/
theorem issue (h : Simulates a nodes l) (ip : IpAddr) :
    Simulates { a with nextId := max (a.nextId + 1) 1 } nodes { l with issued := l.issued ++ [ip] } where
  hosts := h.hosts
  ring := h.ring
  shows := h.shows
  index := h.index
  nodup := h.nodup
  size := h.size
  length := h.length
  nextId := by
    change max (a.nextId + 1) 1 = _
    rw [h.nextId, List.length_append, List.length_singleton, HostList.idOf_succ]
  cap := h.cap
  pos := h.pos
  le_cap := h.le_cap
  le_issued := by
    rw [List.length_append]
    exact h.le_issued.trans (Nat.le_add_right _ _)

/-- A host in a slot that is not linked is put at the front. -/
theorem enlist {a : PeerArena} (nodes : List (UInt32 × Host))
    (hr : a.links.Ring NIL (nodes.map Prod.fst)) (hi : i ≠ NIL) (hni : i ∉ nodes.map Prod.fst)
    (hshows : ∀ n ∈ (i, x) :: nodes, a.entries[n.1.toNat]?.map PeerEntry.bare = some n.2.entry)
    (hindex : ∀ ip j, a.index.lookup ip = some j ↔
      (j, ip) ∈ ((i, x) :: nodes).map fun n => (n.1, n.2.ip))
    (hnodup : (((i, x) :: nodes).map fun n => n.2.ip).Nodup)
    (hsize : a.index.size = nodes.length + 1) (hlen : a.entries.length = nodes.length + 1)
    (hid : a.nextId = HostList.idOf l.issued.length) (hcap : a.cap = l.cap)
    (hle : nodes.length + 1 ≤ a.cap) (hissued : nodes.length + 1 ≤ l.issued.length) :
    ∃ a', a.pushFront i = .ok a' ∧
      Simulates a' ((i, x) :: nodes) { l with hosts := x :: nodes.map Prod.snd } := by
  have hslot : ∀ n ∈ (i, x) :: nodes, n.1.toNat < a.entries.length := by
    intro n hn
    by_contra hl
    have hs := hshows n hn
    rw [List.getElem?_eq_none (by omega)] at hs
    cases hs
  have hhead : a.Linked a.head := PeerArena.linked_head hr fun j hj => by
    obtain ⟨n, hn, rfl⟩ := List.mem_map.mp hj
    exact hslot n (List.mem_cons_of_mem _ hn)
  obtain ⟨a', e, hl, hs⟩ := PeerArena.pushFront_spec (hslot (i, x) (by simp)) hi hhead
  refine ⟨a', e, ?_⟩
  constructor
  case hosts => rfl
  case ring => exact hl ▸ hr.pushFront hi hni
  case shows => exact fun n hn => (hs.getElem? _).trans (hshows n hn)
  case index => exact fun ip j => hs.index ▸ hindex ip j
  case nodup => simpa [Function.comp_def] using hnodup
  case size => rw [hs.index, hsize, List.length_cons]
  case length => rw [hs.length, hlen, List.length_cons]
  case nextId => exact hs.nextId.trans hid
  case cap => exact hs.cap.trans hcap
  case pos => rw [hs.cap]; omega
  case le_cap => rw [hs.cap]; exact hle
  case le_issued => exact hissued

/-- The last host is evicted. -/
theorem evictTail (h : Simulates a (ys ++ [(i, x)]) l) :
    ∃ a', a.evictTail = .ok (i, { a' with index := a'.index.erase x.ip }) ∧
      PeerArena.SameHosts a a' ∧ a'.links.next i = NIL ∧ a'.links.prev i = NIL ∧
      a'.links.Ring NIL (ys.map Prod.fst) := by
  have htail : a.tail = i := by
    rw [h.tail_eq]
    simp
  obtain ⟨a', e, hs, hn, hp, hr⟩ := h.unlink
  obtain ⟨hl, -, he⟩ := h.entry (i := i) (x := x) (by simp)
  have hl' : i.toNat < a'.entries.length := hs.length ▸ hl
  have he' : a'.entries[i.toNat].bare = x.entry := by
    have hg := hs.getElem? i.toNat
    rw [List.getElem?_eq_getElem hl, List.getElem?_eq_getElem hl', Option.map_some,
      Option.map_some, Option.some.injEq] at hg
    exact hg.trans he
  refine ⟨a', ?_, hs, hn, hp, by simpa using hr⟩
  rw [PeerArena.evictTail, htail]
  dsimp only
  rw [e, ok_bind, PeerArena.entry_eq hl', ok_bind,
    show a'.entries[i.toNat].ip = x.ip from congrArg PeerEntry.ip he']
  rfl

/-- The index after a new host. -/
theorem index_insert {t : Table IpAddr UInt32} {ip : IpAddr}
    (h : ∀ ip j, t.lookup ip = some j ↔ (j, ip) ∈ nodes.map fun n => (n.1, n.2.ip))
    (hnew : t.lookup y.ip = none) (j : UInt32) :
    (t.insert y.ip i).lookup ip = some j ↔
      (j, ip) ∈ ((i, y) :: nodes).map fun n => (n.1, n.2.ip) := by
  rw [Finmap.lookup_insert_eq, List.map_cons, List.mem_cons, ← h]
  by_cases he : ip = y.ip
  · subst he
    simp [hnew, eq_comm]
  · simp [he]

theorem ip_not_mem {t : Table IpAddr UInt32} {ip : IpAddr}
    (h : ∀ ip j, t.lookup ip = some j ↔ (j, ip) ∈ nodes.map fun n => (n.1, n.2.ip))
    (hnew : t.lookup ip = none) : ip ∉ nodes.map fun n => n.2.ip := by
  intro hm
  obtain ⟨n, hn, he⟩ := List.mem_map.mp hm
  have hs := (h ip n.1).mpr (List.mem_map.mpr ⟨n, hn, by rw [he]⟩)
  rw [hnew] at hs
  cases hs

/-- The last host's slot is given to a new host. -/
theorem replaceLast (h : Simulates a (ys ++ [(i, x)]) l) {e : PeerEntry} (he : e.bare = y.entry)
    (hn : e.next = NIL) (hp : e.prev = NIL) (hnew : a.index.lookup y.ip = none) :
    ∃ a₁ a₂ a₃, a.evictTail = .ok (i, a₁) ∧ a₁.modify i (fun _ => e) = .ok a₂ ∧
      ({ a₂ with index := a₂.index.insert y.ip i } : PeerArena).pushFront i = .ok a₃ ∧
      Simulates a₃ ((i, y) :: ys) { l with hosts := y :: ys.map Prod.snd } := by
  obtain ⟨a₁, e₁, hs, hn₁, hp₁, hr⟩ := h.evictTail
  obtain ⟨hi, hl⟩ := h.slot (n := (i, x)) (by simp)
  have hl₁ : i.toNat < a₁.entries.length := hs.length ▸ hl
  obtain ⟨hys, -⟩ := Recency.key_ne_of_split h.nodup_slots
  obtain ⟨hyips, -⟩ := Recency.key_ne_of_split h.nodup_ips
  have hxi : a.index.lookup x.ip = some i := (h.index _ _).mpr (by simp)
  -- The index without the last host holds the others.
  have herase : ∀ ip j, (a.index.erase x.ip).lookup ip = some j ↔
      (j, ip) ∈ ys.map fun n => (n.1, n.2.ip) := by
    intro ip j
    rw [Finmap.lookup_erase_eq]
    by_cases hx : ip = x.ip
    · subst hx
      simpa using fun b hb => hyips (j, b) hb
    · rw [if_neg hx, h.index]
      simp [hx]
  have hnone : (a.index.erase x.ip).lookup y.ip = none := by
    rw [Finmap.lookup_erase_eq]
    split
    · rfl
    · exact hnew
  have hlinks : PeerArena.links { a₁ with entries := a₁.entries.set i.toNat e } = a₁.links := by
    rw [PeerArena.links_set hl₁ hi, hn, hp, Function.update_eq_self_iff.mpr hn₁.symm,
      Function.update_eq_self_iff.mpr hp₁.symm]
  obtain ⟨a₃, e₃, h₃⟩ := enlist ys (i := i) (x := y) (l := l)
    (a := { a₁ with
      entries := a₁.entries.set i.toNat e
      index := (a₁.index.erase x.ip).insert y.ip i }) (hlinks ▸ hr) hi
    (by simpa using fun b hb => hys (i, b) hb rfl) (by
      intro n hm
      rcases List.mem_cons.mp hm with rfl | hm
      · simp [hl₁, he]
      · rw [List.getElem?_set_ne fun e => hys n hm (UInt32.toNat_inj.mp e.symm), hs.getElem?]
        exact h.shows n (List.mem_append_left _ hm))
    (fun ip j => by rw [hs.index]; exact index_insert herase hnone j)
    (List.nodup_cons.mpr ⟨ip_not_mem herase hnone, by
      have hd := h.nodup_ips
      rw [List.map_append] at hd
      exact (List.nodup_append.mp hd).1⟩)
    (by
      have hsize := Finmap.size_erase_add_one hxi
      have hlen := h.size
      rw [List.length_append, List.length_singleton] at hlen
      rw [hs.index, Finmap.size_insert_of_lookup_none _ hnone]
      omega)
    (by rw [List.length_set, hs.length, h.length, List.length_append, List.length_singleton])
    (hs.nextId.trans h.nextId) (hs.cap.trans h.cap)
    (by rw [hs.cap]; simpa using h.le_cap) (by simpa using h.le_issued)
  exact ⟨_, _, a₃, e₁, PeerArena.modify_eq
    (a := { a₁ with index := a₁.index.erase x.ip }) hl₁ fun _ => e, e₃, h₃⟩

/-- A new slot is given to a new host. -/
theorem push (h : Simulates a nodes l) {e : PeerEntry} (he : e.bare = y.entry)
    (hn : e.next = NIL) (hp : e.prev = NIL) (hnew : a.index.lookup y.ip = none)
    (hroom : nodes.length < a.cap) (hlen : nodes.length < 4294967295)
    (hissued : nodes.length < l.issued.length) :
    ∃ a', ({ a with
        entries := a.entries ++ [e]
        index := a.index.insert y.ip (UInt32.ofNat a.entries.length) } : PeerArena).pushFront
          (UInt32.ofNat a.entries.length) = .ok a' ∧
      Simulates a' ((UInt32.ofNat a.entries.length, y) :: nodes)
        { l with hosts := y :: nodes.map Prod.snd } := by
  have hi : (UInt32.ofNat a.entries.length).toNat = a.entries.length := by
    rw [UInt32.toNat_ofNat', h.length]
    omega
  have hne : UInt32.ofNat a.entries.length ≠ NIL := by
    intro e
    rw [e, h.length] at hi
    rw [← hi] at hlen
    exact absurd hlen (by decide)
  have hold : ∀ n ∈ nodes, n.1.toNat < a.entries.length := fun n hn => (h.slot hn).2
  refine enlist nodes (x := y) (l := l) ((PeerArena.links_push a hn hp).symm ▸ h.ring) hne
    ?_ ?_ (fun ip j => index_insert h.index hnew j)
    (List.nodup_cons.mpr ⟨ip_not_mem h.index hnew, h.nodup_ips⟩) ?_ ?_ h.nextId h.cap hroom hissued
  · intro hm
    obtain ⟨n, hn, e⟩ := List.mem_map.mp hm
    have hlt := hold n hn
    rw [e, hi] at hlt
    omega
  · intro n hm
    rcases List.mem_cons.mp hm with rfl | hm
    · simp [hi, he]
    · rw [List.getElem?_append_left (hold n hm)]
      exact h.shows n hm
  · exact (Finmap.size_insert_of_lookup_none _ hnew).trans (by rw [h.size])
  · rw [List.length_append, List.length_singleton, h.length]

/-- What the index finds. -/
theorem lookup_eq_none (h : Simulates a nodes l) {ip : IpAddr} :
    a.index.lookup ip = none ↔ l.find ip = none := by
  rw [HostList.find, Recency.find_eq_none, h.hosts, List.map_map, Option.eq_none_iff_forall_ne_some]
  simp only [ne_eq, h.index, List.mem_map, Prod.mk.injEq, not_exists, not_and, Function.comp_apply]
  exact ⟨fun hn n hm e => hn n.1 n hm rfl e, fun hn _ n hm _ e => hn n hm e⟩

theorem split_of_lookup (h : Simulates a nodes l) {ip : IpAddr} {i : UInt32}
    (hl : a.index.lookup ip = some i) : ∃ ys zs x, nodes = ys ++ (i, x) :: zs ∧ x.ip = ip ∧
      l.find ip = some x := by
  obtain ⟨⟨j, x⟩, hn, he⟩ := List.mem_map.mp ((h.index ip i).mp hl)
  cases he
  obtain ⟨ys, zs, rfl⟩ := List.append_of_mem hn
  refine ⟨ys, zs, x, rfl, rfl, (Recency.find_eq_some h.nodup).mpr ⟨?_, rfl⟩⟩
  rw [h.hosts]
  simp

/-- A host that is there is seen. -/
theorem touch_hit (h : Simulates a nodes l) {ip : IpAddr} {i : UInt32}
    (hl : a.index.lookup ip = some i) (fam : UInt16) (now : Instant) :
    ∃ a' nodes', a.touch ip fam now = .ok ((l.touch ip fam now).1, a') ∧
      Simulates a' nodes' (l.touch ip fam now).2 := by
  obtain ⟨ys, zs, x, rfl, hx, hfind⟩ := h.split_of_lookup hl
  obtain ⟨hlt, hentry, hbare⟩ := h.entry (i := i) (x := x) (by simp)
  have hid : a.entries[i.toNat].id = x.id := congrArg PeerEntry.id hbare
  obtain ⟨a₁, e₁, hhead, h₁⟩ := h.modify (y := x.seen fam now)
    (f := fun e => { e with families := e.families ||| fam, lastSeen := now }) (by
      intro e he
      have hfam : e.families = x.families := congrArg PeerEntry.families he
      refine ⟨?_, rfl, rfl⟩
      rw [PeerEntry.bare, Host.entry, Host.families_seen, hfam]
      simp only [PeerEntry.bare, Host.entry, PeerEntry.mk.injEq] at he
      simp [he, Host.seen]) rfl
  obtain ⟨a₂, e₂, h₂⟩ := h₁.moveFront
  have hlist : l.touch ip fam now = (x.id, { l with
      hosts := x.seen fam now :: (ys.map Prod.snd ++ zs.map Prod.snd) }) := by
    have hd := h.nodup
    rw [h.hosts, List.map_append, List.map_cons] at hd
    rw [HostList.touch, hfind, h.hosts, List.map_append, List.map_cons,
      Recency.touch_split hd hx]
  refine ⟨a₂, (i, x.seen fam now) :: (ys ++ zs), ?_, by rw [hlist]; exact h₂⟩
  rw [PeerArena.touch, hl]
  dsimp only
  rw [hentry, ok_bind, e₁, ok_bind, hlist, hid]
  by_cases hh : a₁.head = i
  · rw [if_pos hh] at e₂ ⊢
    cases e₂
    rfl
  · rw [if_neg hh] at e₂ ⊢
    obtain ⟨a', e', e''⟩ := bind_eq_ok.mp e₂
    rw [e', ok_bind, e'']
    rfl

/-- A host that is not there is inserted, in place of the last if the arena is full. -/
theorem touch_miss (h : Simulates a nodes l) {ip : IpAddr} (hl : a.index.lookup ip = none)
    (hlen : nodes.length < 4294967295) (fam : UInt16) (now : Instant) :
    ∃ a' nodes', a.touch ip fam now = .ok ((l.touch ip fam now).1, a') ∧
      Simulates a' nodes' (l.touch ip fam now).2 := by
  have hfind := h.lookup_eq_none.mp hl
  have hnew : ip ∉ l.hosts.map Host.ip := Recency.find_eq_none.mp hfind
  have hissue := h.issue ip
  have hlist : l.touch ip fam now = (HostList.idOf l.issued.length, { l with
      hosts := ⟨ip, HostList.idOf l.issued.length, [fam], now, none⟩ ::
        if l.cap ≤ l.hosts.length then l.hosts.dropLast else l.hosts
      issued := l.issued ++ [ip] }) := by
    rw [HostList.touch, hfind, Recency.touch_new hnew]
  have hhosts : l.hosts.length = nodes.length := by rw [h.hosts, List.length_map]
  rw [hlist, PeerArena.touch, hl, h.nextId, hhosts]
  dsimp only
  rw [← h.nextId]
  have hentry : ∀ y : Host, y = ⟨ip, a.nextId, [fam], now, none⟩ →
      (⟨ip, a.nextId, fam, now, none, NIL, NIL⟩ : PeerEntry).bare = y.entry := by
    rintro _ rfl
    simp [PeerEntry.bare, Host.entry, Host.families]
  by_cases hfull : a.cap ≤ a.index.size
  · have hne : nodes ≠ [] := by
      rintro rfl
      have hp := h.pos
      have hs := h.size
      simp only [List.length_nil] at hs
      omega
    obtain ⟨ys, ⟨i, x⟩, rfl⟩ := (List.eq_nil_or_concat' nodes).resolve_left hne
    obtain ⟨a₁, a₂, a₃, e₁, e₂, e₃, h₃⟩ := hissue.replaceLast (hentry _ rfl) rfl rfl hl
    refine ⟨a₃, (i, ⟨ip, a.nextId, [fam], now, none⟩) :: ys, ?_, ?_⟩
    · rw [if_pos hfull, e₁, ok_bind]
      dsimp only
      rw [e₂]
      dsimp only [ok_bind, pure_eq_ok]
      rw [e₃]
      rfl
    · rw [if_pos (by rw [← h.cap, ← h.size]; exact hfull), h.hosts, List.map_append]
      simpa using h₃
  · obtain ⟨a', e', h'⟩ := hissue.push (hentry _ rfl) rfl rfl hl
      (by rw [← h.size]; exact Nat.lt_of_not_le hfull) hlen (by
        have := h.le_issued
        simp only [List.length_append, List.length_singleton]
        omega)
    refine ⟨a', (UInt32.ofNat a.entries.length, ⟨ip, a.nextId, [fam], now, none⟩) :: nodes, ?_, ?_⟩
    · rw [if_neg hfull]
      dsimp only [ok_bind, pure_eq_ok]
      rw [e']
      rfl
    · rw [if_neg (by rw [← h.cap, ← h.size]; exact hfull), h.hosts]
      exact h'

theorem touch (h : Simulates a nodes l) (hlen : nodes.length < 4294967295) (ip : IpAddr)
    (fam : UInt16) (now : Instant) :
    ∃ a' nodes', a.touch ip fam now = .ok ((l.touch ip fam now).1, a') ∧
      Simulates a' nodes' (l.touch ip fam now).2 := by
  cases hl : a.index.lookup ip with
  | none => exact h.touch_miss hl hlen fam now
  | some i => exact h.touch_hit hl fam now

theorem refresh (h : Simulates a nodes l) (ip : IpAddr) (fam : UInt16) (now : Instant) :
    ∃ a' nodes', a.refresh ip fam now = .ok a' ∧ Simulates a' nodes' (l.refresh ip fam now) := by
  unfold PeerArena.refresh HostList.refresh
  cases hl : a.index.lookup ip with
  | none =>
      rw [h.lookup_eq_none.mp hl]
      exact ⟨a, nodes, rfl, h⟩
  | some i =>
      obtain ⟨a', nodes', e, h'⟩ := h.touch_hit hl fam now
      obtain ⟨-, -, x, -, -, hfind⟩ := h.split_of_lookup hl
      rw [hfind]
      exact ⟨a', nodes', by rw [e]; rfl, h'⟩

theorem setAsn (h : Simulates a nodes l) (ip : IpAddr) (info : AsnInfo) :
    ∃ a' nodes', a.setAsn ip info = .ok a' ∧ Simulates a' nodes' (l.setAsn ip info) := by
  unfold PeerArena.setAsn HostList.setAsn
  cases hl : a.index.lookup ip with
  | none =>
      rw [Recency.update_of_not_mem (Recency.find_eq_none.mp (h.lookup_eq_none.mp hl))]
      exact ⟨a, nodes, rfl, h⟩
  | some i =>
      obtain ⟨ys, zs, x, rfl, hx, -⟩ := h.split_of_lookup hl
      obtain ⟨a', e, -, h'⟩ := h.modify (y := { x with asn := some info })
        (f := fun e => { e with asn := some info }) (by
          intro e he
          refine ⟨?_, rfl, rfl⟩
          simp only [PeerEntry.bare, Host.entry, PeerEntry.mk.injEq] at he
          simp [he, PeerEntry.bare, Host.entry, Host.families]) rfl
      have hd := h.nodup
      rw [h.hosts, List.map_append, List.map_cons] at hd
      refine ⟨a', ys ++ (i, { x with asn := some info }) :: zs, e, ?_⟩
      rw [h.hosts, List.map_append, List.map_cons, Recency.update_split hd hx]
      exact h'

/-- What is known of a host. -/
theorem get (h : Simulates a nodes l) (ip : IpAddr) :
    ∃ e, a.get ip = .ok e ∧ e.map PeerEntry.bare = (l.find ip).map Host.entry := by
  unfold PeerArena.get
  cases hl : a.index.lookup ip with
  | none => exact ⟨none, rfl, by rw [h.lookup_eq_none.mp hl]; rfl⟩
  | some i =>
      obtain ⟨ys, zs, x, rfl, -, hfind⟩ := h.split_of_lookup hl
      obtain ⟨hlt, he, hb⟩ := h.entry (i := i) (x := x) (by simp)
      refine ⟨some a.entries[i.toNat], ?_, ?_⟩
      · dsimp only
        rw [he]
        rfl
      · rw [hfind, Option.map_some, hb]
        rfl

theorem map_bare {es : List PeerEntry}
    (he : List.Forall₂ (fun n e => a.entries[n.1.toNat]? = some e) nodes es)
    (hs : ∀ n ∈ nodes, a.entries[n.1.toNat]?.map PeerEntry.bare = some n.2.entry) :
    es.map PeerEntry.bare = nodes.map (Host.entry ∘ Prod.snd) := by
  induction he with
  | nil => rfl
  | @cons n e ns es hn _ ih =>
      have hb := hs n (by simp)
      rw [hn, Option.map_some, Option.some.injEq] at hb
      rw [List.map_cons, List.map_cons, hb, ih fun m hm => hs m (List.mem_cons_of_mem _ hm)]
      rfl

/-- The walk visits the hosts in their order. -/
theorem iterMru (h : Simulates a nodes l) :
    ∃ es, a.iterMru = .ok es ∧ es.map PeerEntry.bare = l.hosts.map Host.entry ∧
      List.Forall₂ (fun n e => a.entries[n.1.toNat]? = some e) nodes es := by
  obtain ⟨es, e, hes⟩ := PeerArena.mruFrom_path h.ring.path (by
    intro i hi
    obtain ⟨n, hn, rfl⟩ := List.mem_map.mp hi
    exact h.slot hn) (a.entries.length + 1) (by simp [h.length])
  rw [List.forall₂_map_left_iff] at hes
  refine ⟨es, ?_, ?_, hes⟩
  · rw [← e]
    simp [PeerArena.iterMru, PeerArena.links]
  · rw [h.hosts, List.map_map]
    exact map_bare hes h.shows

end Simulates

/-! ### Runs -/

namespace PeerArena

def perform (a : PeerArena) : ArenaOp → Checked PeerArena
  | .touch ip fam now => do return (← a.touch ip fam now).2
  | .refresh ip fam now => a.refresh ip fam now
  | .setAsn ip info => a.setAsn ip info

/-- The arena after a sequence of calls. -/
def after (a : PeerArena) : List ArenaOp → Checked PeerArena
  | [] => return a
  | op :: ops => do (← a.perform op).after ops

/-- The slab, the index and the list agree, the walk visiting `es`. -/
structure Consistent (a : PeerArena) (es : List PeerEntry) : Prop where
  walk : a.iterMru = .ok es
  /-- Each indexed address is visited exactly once. -/
  nodup : (es.map (·.ip)).Nodup
  visits : ∀ ip, ip ∈ es.map (·.ip) ↔ a.index.lookup ip ≠ none
  stored : ∀ ip i, a.index.lookup ip = some i → ∃ e, a.entries[i.toNat]? = some e ∧ e.ip = ip
  inverse : ∀ i, (i = NIL ∨ ∃ ip, a.index.lookup ip = some i) →
    a.links.prev (a.links.next i) = i ∧ a.links.next (a.links.prev i) = i
  tail : a.entries[a.tail.toNat]? = es.getLast?
  size_le : a.index.size ≤ a.cap

end PeerArena

namespace Simulates

variable {a : PeerArena} {nodes : List (UInt32 × Host)} {l : HostList}

theorem perform (h : Simulates a nodes l) (hlen : nodes.length < 4294967295) (op : ArenaOp) :
    ∃ a' nodes', a.perform op = .ok a' ∧ Simulates a' nodes' (l.perform op) := by
  cases op with
  | touch ip fam now =>
      obtain ⟨a', nodes', e, h'⟩ := h.touch hlen ip fam now
      exact ⟨a', nodes', by rw [PeerArena.perform, e]; rfl, h'⟩
  | refresh ip fam now => exact h.refresh ip fam now
  | setAsn ip info => exact h.setAsn ip info

/-- While fewer ids than there are have been issued, the calls on the arena do what they do on the
list. -/
theorem after (h : Simulates a nodes l) (ops : List ArenaOp)
    (hlen : (l.after ops).issued.length < 4294967295) :
    ∃ a' nodes', a.after ops = .ok a' ∧ Simulates a' nodes' (l.after ops) := by
  induction ops generalizing a nodes l with
  | nil => exact ⟨a, nodes, rfl, h⟩
  | cons op ops ih =>
      have hle := (l.issued_after (op :: ops)).length_le
      have hnodes := h.le_issued
      obtain ⟨a₁, nodes₁, e₁, h₁⟩ := h.perform (by omega) op
      obtain ⟨a', nodes', e', h'⟩ := ih h₁ hlen
      exact ⟨a', nodes', by rw [PeerArena.after, e₁, ok_bind, e'], h'⟩

/-- The tail is the slot of the host visited last. -/
theorem tail_visited (h : Simulates a nodes l) {es : List PeerEntry}
    (hes : List.Forall₂ (fun n e => a.entries[n.1.toNat]? = some e) nodes es) :
    a.entries[a.tail.toNat]? = es.getLast? := by
  have hmap : nodes.map (fun n => a.entries[n.1.toNat]?) = es.map some := by
    rw [← List.forall₂_eq_eq_eq, List.forall₂_map_left_iff, List.forall₂_map_right_iff]
    exact hes
  have hlast := congrArg List.getLast? hmap
  rw [List.getLast?_map, List.getLast?_map] at hlast
  rcases List.eq_nil_or_concat' nodes with rfl | ⟨ys, n, rfl⟩
  · -- nothing is visited, and no slot is there to be the tail
    have hl := h.length
    have hz : es.getLast? = none := by simpa using hlast.symm
    rw [hz, List.getElem?_eq_none (by rw [hl]; exact Nat.zero_le _)]
  · rw [List.getLast?_append, List.getLast?_singleton] at hlast
    simp only [Option.some_or, Option.map_some] at hlast
    have ht : a.tail = n.1 := by rw [h.tail_eq]; simp
    rw [ht]
    cases hg : es.getLast? with
    | none => rw [hg] at hlast; cases hlast
    | some e =>
        rw [hg, Option.map_some, Option.some.injEq] at hlast
        exact hlast

/-- What stands for a list of hosts is consistent. -/
theorem consistent (h : Simulates a nodes l) :
    ∃ es, a.Consistent es ∧ es.map PeerEntry.bare = l.hosts.map Host.entry := by
  obtain ⟨es, he, hb, hes⟩ := h.iterMru
  have hips : es.map (·.ip) = l.hosts.map Host.ip := by
    have e := congrArg (List.map PeerEntry.ip) hb
    rw [List.map_map, List.map_map] at e
    exact e
  refine ⟨es, ?_, hb⟩
  constructor
  case walk => exact he
  case nodup => exact hips ▸ h.nodup
  case visits =>
    intro ip
    rw [hips, ne_eq, h.lookup_eq_none, HostList.find, Recency.find_eq_none, not_not]
  case stored =>
    intro ip i hl
    obtain ⟨ys, zs, x, rfl, hx, -⟩ := h.split_of_lookup hl
    obtain ⟨hlt, -, hb⟩ := h.entry (i := i) (x := x) (by simp)
    exact ⟨_, List.getElem?_eq_getElem hlt, (congrArg PeerEntry.ip hb).trans hx⟩
  case inverse =>
    rintro i (rfl | ⟨ip, hl⟩)
    · have hn := h.ring.neighbours (List.mem_cons_self ..)
      exact ⟨hn.1.2, hn.2.2⟩
    · obtain ⟨ys, zs, x, rfl, -, -⟩ := h.split_of_lookup hl
      have hn := h.ring.neighbours (i := i) (by simp)
      exact ⟨hn.1.2, hn.2.2⟩
  case tail => exact h.tail_visited hes
  case size_le => rw [h.size]; exact h.le_cap

end Simulates

/-- The host an entry stands for. -/
theorem exists_host {es : List PeerEntry} {hosts : List Host}
    (h : es.map PeerEntry.bare = hosts.map Host.entry) {e : PeerEntry} (he : e ∈ es) :
    ∃ x ∈ hosts, e.ip = x.ip ∧ e.id = x.id := by
  obtain ⟨x, hx, hxe⟩ := List.mem_map.mp (h ▸ List.mem_map_of_mem (f := PeerEntry.bare) he)
  exact ⟨x, hx, (congrArg PeerEntry.ip hxe).symm, (congrArg PeerEntry.id hxe).symm⟩

/-- Host `ip` is in the arena after these calls. -/
def Resident (cap : ℕ) (ip : IpAddr) (ops : List ArenaOp) : Prop :=
  ∃ a, (PeerArena.new cap).after ops = .ok a ∧ a.index.lookup ip ≠ none

/-- Every sequence of calls from an empty arena leaves it consistent, visiting the hosts a plain LRU
holds, each with the families it was given since it was inserted; an id is never given to another
host, and a host keeps its own for as long as it is resident. -/
theorem arena_refines_lru (cap : ℕ) (ops : List ArenaOp)
    (hops : ((HostList.new cap).after ops).issued.length < 4294967295) :
    ∃ a es, (PeerArena.new cap).after ops = .ok a ∧ a.Consistent es ∧ a.cap = max cap 1 ∧
      es.map PeerEntry.bare = ((HostList.new cap).after ops).hosts.map Host.entry ∧
      ∀ ops₁ ops₂, ops = ops₁ ++ ops₂ → ∃ a₁ es₁, (PeerArena.new cap).after ops₁ = .ok a₁ ∧
        a₁.Consistent es₁ ∧ ∀ e₁ ∈ es₁, ∀ e ∈ es,
          (e.id = e₁.id → e.ip = e₁.ip) ∧
          (e.ip = e₁.ip → (∀ ops', ops' <+: ops₂ → Resident cap e₁.ip (ops₁ ++ ops')) →
            e.id = e₁.id) := by
  have hnew := Simulates.new cap
  obtain ⟨a, nodes, ha, h⟩ := hnew.after ops hops
  obtain ⟨es, hes, hb⟩ := h.consistent
  refine ⟨a, es, ha, hes, h.cap.trans (HostList.cap_after _ ops), hb, ?_⟩
  rintro ops₁ ops₂ rfl
  rw [HostList.after_append] at hops h hb
  have hle := ((HostList.new cap).after ops₁).issued_after ops₂
  have hlen := hle.length_le
  obtain ⟨a₁, nodes₁, ha₁, h₁⟩ := hnew.after ops₁ (by omega)
  obtain ⟨es₁, hes₁, hb₁⟩ := h₁.consistent
  refine ⟨a₁, es₁, ha₁, hes₁, fun e₁ he₁ e he => ?_⟩
  obtain ⟨x, hx, hxe⟩ := exists_host hb₁ he₁
  obtain ⟨y, hy, hye⟩ := exists_host hb he
  rw [hxe.1, hxe.2, hye.1, hye.2]
  have hn := (HostList.numbered_new cap).after ops₁
  refine ⟨HostList.ip_of_id hn (hn.after ops₂) hle hops hx hy, fun hip hres => ?_⟩
  refine HostList.id_after h₁.nodup hx (fun ops' hp => ?_) hy hip
  obtain ⟨a', ha', hl⟩ := hres ops' hp
  obtain ⟨t, rfl⟩ := hp
  rw [HostList.after_append] at hops
  have hlen' := (((HostList.new cap).after ops₁).after ops').issued_after t |>.length_le
  obtain ⟨a'', nodes', ha'', h'⟩ := hnew.after (ops₁ ++ ops') (by
    rw [HostList.after_append]
    omega)
  rw [ha''] at ha'
  cases ha'
  rw [HostList.after_append] at h'
  rw [ne_eq, h'.lookup_eq_none, HostList.find, Recency.find_eq_none, not_not] at hl
  exact hl

/-- Two hosts in turn in an arena of one slot: the one that comes back has a new id. -/
theorem arena_refines_lru_evicted :
    ∃ a es, (PeerArena.new 0).after [.touch (.v4 ⟨10, 0, 0, 1⟩) Family.UTP 5,
        .touch (.v4 ⟨10, 0, 0, 2⟩) Family.TLS 6, .touch (.v4 ⟨10, 0, 0, 1⟩) Family.DHT 7] = .ok a ∧
      a.Consistent es ∧
      es.map (fun e => (e.ip, e.id, e.families)) = [(.v4 ⟨10, 0, 0, 1⟩, 3, Family.DHT)] := by
  obtain ⟨a, es, ha, hes, -, hb, -⟩ := arena_refines_lru 0
    [.touch (.v4 ⟨10, 0, 0, 1⟩) Family.UTP 5, .touch (.v4 ⟨10, 0, 0, 2⟩) Family.TLS 6,
      .touch (.v4 ⟨10, 0, 0, 1⟩) Family.DHT 7] (by decide)
  refine ⟨a, es, ha, hes, ?_⟩
  have h := congrArg (List.map fun e => (e.ip, e.id, e.families)) hb
  rw [List.map_map] at h
  exact h.trans (by decide)

end Tunnel.Inspect
