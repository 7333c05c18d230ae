import Tunnel.Inspect.Arena
import Tunnel.Support.Recency

/-!
# Inspect — The hosts

What the host arena is for: a list of hosts, the most recently seen first, bounded by dropping the
last.  Each host remembers every family it was given since it was inserted, and the id of that
insertion.

* `mem_perform`: the hosts after a call were there before it, or are the one it inserts.
* `Numbered`: each host has the id of an insertion of its own address, and ids do not repeat
  (`idOf_inj`) before they wrap.
-/

namespace Tunnel.Inspect
open Support

/-- A host, with the families it was given since it was inserted. -/
structure Host where
  ip : IpAddr
  id : UInt32
  given : List UInt16
  lastSeen : Instant
  asn : Option AsnInfo
deriving DecidableEq

namespace Host

def families (h : Host) : UInt16 := h.given.foldl (· ||| ·) 0

def seen (fam : UInt16) (now : Instant) (h : Host) : Host :=
  { h with given := h.given ++ [fam], lastSeen := now }

/-- The host as an entry of the slab, apart from its place in the list. -/
def entry (h : Host) : PeerEntry :=
  { ip := h.ip, id := h.id, families := h.families, lastSeen := h.lastSeen, asn := h.asn,
    prev := NIL, next := NIL }

@[simp] theorem seen_ip (fam : UInt16) (now : Instant) (h : Host) : (h.seen fam now).ip = h.ip :=
  rfl

@[simp] theorem seen_id (fam : UInt16) (now : Instant) (h : Host) : (h.seen fam now).id = h.id :=
  rfl

@[simp] theorem families_seen (fam : UInt16) (now : Instant) (h : Host) :
    (h.seen fam now).families = h.families ||| fam := by
  simp [families, seen]

end Host

/-- The hosts, most recently seen first.  `issued` is the address of each insertion there was. -/
structure HostList where
  cap : ℕ
  hosts : List Host
  issued : List IpAddr
deriving DecidableEq

namespace HostList

def new (cap : ℕ) : HostList := ⟨max cap 1, [], []⟩

/-- The id of the `n`-th insertion: the ids wrap, and skip 0. -/
def idOf (n : ℕ) : UInt32 := UInt32.ofNat (n % 4294967295 + 1)

theorem idOf_toNat (n : ℕ) : (idOf n).toNat = n % 4294967295 + 1 := by
  rw [idOf, UInt32.toNat_ofNat']
  omega

/-- `next_id.wrapping_add(1).max(1)`. -/
theorem idOf_succ (n : ℕ) : max (idOf n + 1) 1 = idOf (n + 1) := by
  have hadd : (idOf n + 1).toNat = (n % 4294967295 + 2) % 4294967296 := by
    rw [UInt32.toNat_add, idOf_toNat]
    rfl
  apply UInt32.toNat_inj.mp
  rw [idOf_toNat,
    show max (idOf n + 1) 1 = if idOf n + 1 ≤ 1 then 1 else idOf n + 1 from rfl]
  split
  · next hle =>
      rw [UInt32.le_iff_toNat_le, hadd] at hle
      simp only [UInt32.reduceToNat] at hle ⊢
      omega
  · next hle =>
      rw [UInt32.le_iff_toNat_le, hadd] at hle
      simp only [UInt32.reduceToNat] at hle
      rw [hadd]
      omega

def find (l : HostList) (ip : IpAddr) : Option Host := Recency.find Host.ip ip l.hosts

def touch (l : HostList) (ip : IpAddr) (fam : UInt16) (now : Instant) : UInt32 × HostList :=
  let fresh : Host := ⟨ip, idOf l.issued.length, [fam], now, none⟩
  let hosts := Recency.touch Host.ip l.cap ip (Host.seen fam now) fresh l.hosts
  match l.find ip with
  | some h => (h.id, { l with hosts })
  | none => (fresh.id, { l with hosts, issued := l.issued ++ [ip] })

def refresh (l : HostList) (ip : IpAddr) (fam : UInt16) (now : Instant) : HostList :=
  if (l.find ip).isSome then (l.touch ip fam now).2 else l

def setAsn (l : HostList) (ip : IpAddr) (info : AsnInfo) : HostList :=
  { l with hosts := Recency.update Host.ip ip (fun h => { h with asn := some info }) l.hosts }

end HostList

/-! ### Calls -/

/-- The calls that change an arena; the monitor changes an entry it got to set its network alone. -/
inductive ArenaOp where
  | touch (ip : IpAddr) (fam : UInt16) (now : Instant)
  | refresh (ip : IpAddr) (fam : UInt16) (now : Instant)
  | setAsn (ip : IpAddr) (info : AsnInfo)

def HostList.perform (l : HostList) : ArenaOp → HostList
  | .touch ip fam now => (l.touch ip fam now).2
  | .refresh ip fam now => l.refresh ip fam now
  | .setAsn ip info => l.setAsn ip info

def HostList.after (l : HostList) (ops : List ArenaOp) : HostList := ops.foldl HostList.perform l

/-! ### Insertions and ids -/

namespace HostList

variable {l : HostList} {op : ArenaOp} {x y : Host} {ip : IpAddr}

/-- A use keeps the record of insertions, or adds to it. -/
theorem issued_touch (l : HostList) (ip : IpAddr) (fam : UInt16) (now : Instant) :
    (l.touch ip fam now).2.issued = l.issued ∧ l.find ip ≠ none ∨
      (l.touch ip fam now).2.issued = l.issued ++ [ip] ∧ l.find ip = none := by
  unfold touch
  cases hf : l.find ip with
  | some h => exact .inl ⟨rfl, nofun⟩
  | none => exact .inr ⟨rfl, rfl⟩

/-- The hosts after a call were there before it, or are the one it inserts. -/
theorem mem_touch {ip : IpAddr} {fam : UInt16} {now : Instant}
    (h : y ∈ (l.touch ip fam now).2.hosts) :
    (∃ x ∈ l.hosts, x.ip = y.ip ∧ x.id = y.id) ∨
      (y.ip ∉ l.hosts.map Host.ip ∧ y.id = idOf l.issued.length ∧
        (l.touch ip fam now).2.issued = l.issued ++ [y.ip]) := by
  have hm : y ∈ Recency.touch Host.ip l.cap ip (Host.seen fam now)
      ⟨ip, idOf l.issued.length, [fam], now, none⟩ l.hosts := by
    unfold touch at h
    split at h <;> exact h
  rcases Recency.mem_touch hm with ⟨x, hx, rfl, rfl⟩ | hy | ⟨rfl, hn⟩
  · exact .inl ⟨x, hx, rfl, rfl⟩
  · exact .inl ⟨y, hy, rfl, rfl⟩
  · refine .inr ⟨hn, rfl, ?_⟩
    rcases l.issued_touch ip fam now with ⟨-, hf⟩ | ⟨hi, -⟩
    · exact absurd (Recency.find_eq_none.mpr hn) hf
    · exact hi

theorem mem_perform (h : y ∈ (l.perform op).hosts) :
    (∃ x ∈ l.hosts, x.ip = y.ip ∧ x.id = y.id) ∨
      (y.ip ∉ l.hosts.map Host.ip ∧ y.id = idOf l.issued.length ∧
        (l.perform op).issued = l.issued ++ [y.ip]) := by
  cases op with
  | touch ip fam now => exact mem_touch h
  | refresh ip fam now =>
      simp only [perform, refresh] at h ⊢
      split at h
      · next hf =>
          rw [if_pos hf]
          exact mem_touch h
      · exact .inl ⟨y, h, rfl, rfl⟩
  | setAsn ip info =>
      obtain ⟨x, hx, rfl⟩ := List.mem_map.mp h
      refine .inl ⟨x, hx, ?_⟩
      split <;> exact ⟨rfl, rfl⟩

theorem issued_perform (l : HostList) (op : ArenaOp) : l.issued <+: (l.perform op).issued := by
  have ht : ∀ ip fam now, l.issued <+: (l.touch ip fam now).2.issued := by
    intro ip fam now
    rcases l.issued_touch ip fam now with ⟨h, -⟩ | ⟨h, -⟩ <;> rw [h]
    exact List.prefix_append _ _
  cases op with
  | touch ip fam now => exact ht ip fam now
  | refresh ip fam now =>
      simp only [perform, refresh]
      split
      · exact ht ip fam now
      · exact List.prefix_refl _
  | setAsn ip info => exact List.prefix_refl _

theorem issued_after (l : HostList) (ops : List ArenaOp) : l.issued <+: (l.after ops).issued := by
  induction ops generalizing l with
  | nil => exact List.prefix_refl _
  | cons op ops ih => exact (l.issued_perform op).trans (ih _)

theorem after_append (l : HostList) (ops₁ ops₂ : List ArenaOp) :
    l.after (ops₁ ++ ops₂) = (l.after ops₁).after ops₂ := List.foldl_append

theorem cap_perform (l : HostList) (op : ArenaOp) : (l.perform op).cap = l.cap := by
  have ht : ∀ ip fam now, (l.touch ip fam now).2.cap = l.cap := by
    intro ip fam now
    unfold touch
    split <;> rfl
  cases op with
  | touch ip fam now => exact ht ip fam now
  | refresh ip fam now =>
      simp only [perform, refresh]
      split
      · exact ht ip fam now
      · rfl
  | setAsn ip info => rfl

theorem cap_after (l : HostList) (ops : List ArenaOp) : (l.after ops).cap = l.cap := by
  induction ops generalizing l with
  | nil => rfl
  | cons op ops ih => exact (ih _).trans (l.cap_perform op)

/-- Each host has the id of an insertion of its address. -/
def Numbered (l : HostList) : Prop :=
  ∀ h ∈ l.hosts, ∃ n, l.issued[n]? = some h.ip ∧ h.id = idOf n

theorem Numbered.perform (h : l.Numbered) (op : ArenaOp) : (l.perform op).Numbered := by
  intro y hy
  rcases mem_perform hy with ⟨x, hx, hip, hid⟩ | ⟨-, hid, hi⟩
  · obtain ⟨n, hn, he⟩ := h x hx
    refine ⟨n, ?_, hid ▸ he⟩
    obtain ⟨hlt, -⟩ := List.getElem?_eq_some_iff.mp hn
    obtain ⟨t, ht⟩ := l.issued_perform op
    rw [← ht, List.getElem?_append_left hlt, hn, hip]
  · exact ⟨l.issued.length, by rw [hi]; simp, hid⟩

theorem Numbered.after (h : l.Numbered) (ops : List ArenaOp) : (l.after ops).Numbered := by
  induction ops generalizing l with
  | nil => exact h
  | cons op ops ih => exact ih (h.perform op)

theorem numbered_new (cap : ℕ) : (new cap).Numbered := nofun

/-- Ids do not repeat before they wrap. -/
theorem idOf_inj {n m : ℕ} (hn : n < 4294967295) (hm : m < 4294967295) (h : idOf n = idOf m) :
    n = m := by
  have e := congrArg UInt32.toNat h
  rw [idOf_toNat, idOf_toNat] at e
  omega

/-- An id that is seen twice, at any two times, is of one address. -/
theorem ip_of_id {l' : HostList} (h : l.Numbered) (h' : l'.Numbered)
    (hi : l.issued <+: l'.issued) (hlen : l'.issued.length < 4294967295) (hx : x ∈ l.hosts)
    (hy : y ∈ l'.hosts) (e : y.id = x.id) : y.ip = x.ip := by
  obtain ⟨n, hn, hxn⟩ := h x hx
  obtain ⟨m, hm, hym⟩ := h' y hy
  obtain ⟨hlt, -⟩ := List.getElem?_eq_some_iff.mp hn
  obtain ⟨hlt', -⟩ := List.getElem?_eq_some_iff.mp hm
  have hle := hi.length_le
  have hnm : m = n := idOf_inj (by omega) (by omega) (by rw [← hym, ← hxn, e])
  obtain ⟨t, ht⟩ := hi
  rw [hnm, ← ht, List.getElem?_append_left hlt, hn, Option.some.injEq] at hm
  exact hm.symm

theorem nodup_touch (hd : (l.hosts.map Host.ip).Nodup) (ip : IpAddr) (fam : UInt16)
    (now : Instant) : ((l.touch ip fam now).2.hosts.map Host.ip).Nodup := by
  have ht : ((Recency.touch Host.ip l.cap ip (Host.seen fam now)
      ⟨ip, idOf l.issued.length, [fam], now, none⟩ l.hosts).map Host.ip).Nodup :=
    Recency.nodup_touch hd (fun _ => rfl) rfl
  unfold touch
  split <;> exact ht

theorem nodup_perform (hd : (l.hosts.map Host.ip).Nodup) (op : ArenaOp) :
    ((l.perform op).hosts.map Host.ip).Nodup := by
  cases op with
  | touch ip fam now => exact nodup_touch hd ip fam now
  | refresh ip fam now =>
      simp only [perform, refresh]
      split
      · exact nodup_touch hd ip fam now
      · exact hd
  | setAsn ip info =>
      have e : (Recency.update Host.ip ip (fun h => { h with asn := some info }) l.hosts).map
          Host.ip = l.hosts.map Host.ip := Recency.map_key_update fun _ => rfl
      simp only [perform, setAsn, e]
      exact hd

/-- A host keeps its id from call to call for as long as it is there. -/
theorem id_after {ops : List ArenaOp} (hd : (l.hosts.map Host.ip).Nodup) (hx : x ∈ l.hosts)
    (hres : ∀ ops', ops' <+: ops → x.ip ∈ (l.after ops').hosts.map Host.ip)
    (hy : y ∈ (l.after ops).hosts) (e : y.ip = x.ip) : y.id = x.id := by
  induction ops generalizing l x with
  | nil => rw [List.inj_on_of_nodup_map hd hy hx e]
  | cons op ops ih =>
      obtain ⟨z, hz, hzx⟩ := List.mem_map.mp (hres [op] (by simp))
      have hzid : z.id = x.id := by
        rcases mem_perform hz with ⟨w, hw, hip, hid⟩ | ⟨hn, -⟩
        · rw [← hid, List.inj_on_of_nodup_map hd hw hx (hip.trans hzx)]
        · exact absurd (hzx ▸ List.mem_map_of_mem hx) hn
      rw [← hzid]
      refine ih (nodup_perform hd op) hz ?_ hy (e.trans hzx.symm)
      intro ops' hp
      rw [hzx]
      exact hres (op :: ops') (List.cons_prefix_cons.mpr ⟨rfl, hp⟩)

/-! ### What is known of a host -/

/-- The addresses the list holds. -/
def Holds (l : HostList) (ip : IpAddr) : Prop := ip ∈ l.hosts.map Host.ip

def idAt (l : HostList) (ip : IpAddr) : Option UInt32 := (l.find ip).map Host.id

/-- `is_torrenting`. -/
def torrents (l : HostList) (ip : IpAddr) : Bool :=
  (l.find ip).any fun h => h.families &&& Family.TORRENTING != 0

theorem holds_iff_find : l.Holds ip ↔ l.find ip ≠ none := by
  rw [find, ne_eq, Recency.find_eq_none, not_not, Holds]

theorem hosts_touch (l : HostList) (ip : IpAddr) (fam : UInt16) (now : Instant) :
    (l.touch ip fam now).2.hosts = Recency.touch Host.ip l.cap ip (Host.seen fam now)
      ⟨ip, idOf l.issued.length, [fam], now, none⟩ l.hosts := by
  unfold touch
  split <;> rfl

/-- The host just seen. -/
theorem find_touch_self (l : HostList) (ip : IpAddr) (fam : UInt16) (now : Instant) :
    (l.touch ip fam now).2.find ip =
      some (((l.find ip).map (Host.seen fam now)).getD
        ⟨ip, idOf l.issued.length, [fam], now, none⟩) := by
  rw [find, hosts_touch]
  exact Recency.find_touch_self (fun _ => rfl) rfl

/-- Another host that is not the one to go. -/
theorem find_touch_of_ne (hd : (l.hosts.map Host.ip).Nodup) {ip j : IpAddr} (hj : j ≠ ip)
    {fam : UInt16} {now : Instant} (hm : l.Holds j → (l.touch ip fam now).2.Holds j) :
    (l.touch ip fam now).2.find j = l.find j := by
  rw [Holds, Holds, hosts_touch] at hm
  rw [find, hosts_touch]
  exact Recency.find_touch_of_ne hd (fun _ => rfl) rfl hj hm

/-- A host that stays keeps its id. -/
theorem idAt_touch (hd : (l.hosts.map Host.ip).Nodup) (ip : IpAddr) (fam : UInt16) (now : Instant)
    {j : IpAddr} (h : l.Holds j) (h' : (l.touch ip fam now).2.Holds j) :
    (l.touch ip fam now).2.idAt j = l.idAt j := by
  by_cases hj : j = ip
  · subst hj
    obtain ⟨x, hx⟩ := Option.ne_none_iff_exists'.mp (holds_iff_find.mp h)
    rw [idAt, idAt, find_touch_self, hx]
    rfl
  · rw [idAt, idAt, find_touch_of_ne hd hj fun _ => h']

/-- Both families of a host seen again count. -/
theorem or_torrenting (a b t : UInt16) : ((a ||| b) &&& t != 0) = (a &&& t != 0 || b &&& t != 0) := by
  have e : (a ||| b) &&& t = (a &&& t) ||| (b &&& t) := by
    apply UInt16.toBitVec_inj.mp
    ext i
    simp [Bool.and_or_distrib_right]
  rw [e, Bool.eq_iff_iff]
  simp only [bne_iff_ne, ne_eq, Bool.or_eq_true, UInt16.or_eq_zero_iff]
  tauto

theorem torrents_touch_self (l : HostList) (ip : IpAddr) (fam : UInt16) (now : Instant) :
    (l.touch ip fam now).2.torrents ip = (l.torrents ip || fam &&& Family.TORRENTING != 0) := by
  rw [torrents, torrents, find_touch_self]
  cases l.find ip with
  | some x => simp [or_torrenting]
  | none => simp [Host.families]

theorem torrents_touch_of_ne (hd : (l.hosts.map Host.ip).Nodup) {ip j : IpAddr} (hj : j ≠ ip)
    {fam : UInt16} {now : Instant} (hm : l.Holds j → (l.touch ip fam now).2.Holds j) :
    (l.touch ip fam now).2.torrents j = l.torrents j := by
  rw [torrents, torrents, find_touch_of_ne hd hj hm]

theorem holds_touch_hit (hd : (l.hosts.map Host.ip).Nodup) {ip j : IpAddr} (h : l.Holds ip)
    (fam : UInt16) (now : Instant) : (l.touch ip fam now).2.Holds j ↔ l.Holds j := by
  rw [Holds, hosts_touch]
  exact Recency.mem_key_touch_hit hd h fun _ => rfl

theorem holds_touch_new {ip j : IpAddr} (h : ¬ l.Holds ip) (hroom : l.hosts.length < l.cap)
    (fam : UInt16) (now : Instant) : (l.touch ip fam now).2.Holds j ↔ j = ip ∨ l.Holds j := by
  rw [Holds, hosts_touch]
  exact Recency.mem_key_touch_new h rfl hroom

theorem refresh_of_holds {ip : IpAddr} (h : l.Holds ip) (fam : UInt16) (now : Instant) :
    l.refresh ip fam now = (l.touch ip fam now).2 := by
  obtain ⟨x, hx⟩ := Option.ne_none_iff_exists'.mp (holds_iff_find.mp h)
  rw [refresh, hx]
  rfl

/-- A host's network is no part of what is looked at here. -/
theorem setAsn_known (l : HostList) (ip j : IpAddr) (info : AsnInfo) :
    ((l.setAsn ip info).Holds j ↔ l.Holds j) ∧ (l.setAsn ip info).idAt j = l.idAt j ∧
      (l.setAsn ip info).torrents j = l.torrents j := by
  have hf : (l.setAsn ip info).find j =
      (l.find j).map fun h => if h.ip = ip then { h with asn := some info } else h :=
    Recency.find_update (f := fun h : Host => { h with asn := some info }) (fun _ => rfl) j
  rw [holds_iff_find, holds_iff_find, idAt, idAt, torrents, torrents, hf]
  cases l.find j with
  | none => simp
  | some x =>
      simp only [Option.map_some, Option.any_some]
      split <;> simp [Host.families]

end HostList

end Tunnel.Inspect
