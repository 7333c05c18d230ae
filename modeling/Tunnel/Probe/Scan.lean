import Mathlib.Algebra.BigOperators.Fin
import Tunnel.Probe.Inert
import Tunnel.Probe.Ports
import Tunnel.Support.Runs

/-!
# Probe — A port scan

`scan`: workers that take the ports of a list one by one from a shared cursor, probe them, and fold
what they find into one record, a copy of which is published each time.  The cursor and the record
have locks of their own, so a step of a worker is one critical section, one probe, or one
publication; the steps of the workers come in any order.

The state also keeps what the outside world has seen: the probes made and the records published.

* `scan_accounts`: in every run each record published counts every port that is done in exactly one
  of three ways; no place of the list is probed twice; and once the workers have stopped every place
  has been probed and the open ports are those that answered.
* `Accounted`: what holds between the steps; each step keeps it (`Accounted.step`).
* `begun_stops`: the workers do stop.
-/

namespace Tunnel.Probe
open Support Text

/-! ### One port -/

def SCAN_CONCURRENCY : ℕ := 16
def BANNER_BYTES : ℕ := 256

/-- `inspect::service_name`. -/
def serviceName (port : UInt16) : Text :=
  let n := port.toNat
  if n = 20 ∨ n = 21 then lit "ftp"
  else if n = 22 then lit "ssh"
  else if n = 23 then lit "telnet"
  else if n = 25 ∨ n = 587 then lit "smtp"
  else if n = 53 then lit "dns"
  else if n = 67 ∨ n = 68 then lit "dhcp"
  else if n = 80 then lit "http"
  else if n = 110 then lit "pop3"
  else if n = 123 then lit "ntp"
  else if 137 ≤ n ∧ n ≤ 139 then lit "netbios"
  else if n = 143 then lit "imap"
  else if n = 161 ∨ n = 162 then lit "snmp"
  else if n = 389 then lit "ldap"
  else if n = 443 then lit "https"
  else if n = 445 then lit "smb"
  else if n = 465 then lit "smtps"
  else if n = 546 ∨ n = 547 then lit "dhcpv6"
  else if n = 636 then lit "ldaps"
  else if n = 853 then lit "dns-tls"
  else if n = 993 then lit "imaps"
  else if n = 995 then lit "pop3s"
  else if n = 1194 then lit "openvpn"
  else if n = 1900 then lit "ssdp"
  else if n = 3128 ∨ n = 8080 then lit "http-proxy"
  else if n = 3306 then lit "mysql"
  else if n = 3389 then lit "rdp"
  else if n = 5222 then lit "xmpp"
  else if n = 5353 then lit "mdns"
  else if n = 5355 then lit "llmnr"
  else if n = 5432 then lit "postgres"
  else if n = 6379 then lit "redis"
  else if n = 8388 ∨ n = 8389 then lit "shadowsocks"
  else if n = 8443 then lit "https-alt"
  else if n = 27017 then lit "mongodb"
  else if n = 51820 then lit "wireguard"
  else []

inductive PortState where
  | «open»
  | closed
  | filtered
deriving DecidableEq, Repr

structure PortResult where
  port : UInt16
  service : Text
  banner : Option Text
deriving DecidableEq

/-- How a connection can fail, as far as `connect_state` asks. -/
inductive ConnectError where
  | refused
  | other
deriving DecidableEq

def connectState : ConnectError → PortState
  | .refused => .closed
  | .other => .filtered

/-- What comes of a port: no connection, or one and what one read of it gives. -/
inductive Answered where
  | failed (e : ConnectError)
  | connected (read : Option Bytes)
deriving DecidableEq

/-- What a read, if it does not fail, gives to show. -/
def banner (read : Option Bytes) : Checked (Option Text) :=
  match (read.getD []).take BANNER_BYTES with
  | [] => return none
  | bytes => bannerText bytes

def probePort (port : UInt16) : Answered → Checked (PortState × Option PortResult)
  | .failed e => return (connectState e, none)
  | .connected read => return (.«open», some ⟨port, serviceName port, ← banner read⟩)

theorem banner_returns (read : Option Bytes) : Returns (banner read) := by
  rw [banner]
  split
  · exact Returns.ok none
  · obtain ⟨text, htext, -⟩ := bannerText_returns ((read.getD []).take BANNER_BYTES)
    exact ⟨text, htext⟩

/-! ### The workers -/

/-- `ScanOutcome`; the time is in nanoseconds. -/
structure ScanOutcome where
  target : IpAddr
  done : ℕ
  total : ℕ
  elapsed : ℕ
  «open» : List PortResult
  closed : ℕ
  filtered : ℕ
deriving DecidableEq

/-- What the progress lock is held for. -/
def ScanOutcome.fold (o : ScanOutcome) (state : PortState) (found : Option PortResult)
    (elapsed : ℕ) : ScanOutcome :=
  let o := match state with
    | .«open» => { o with «open» := o.open ++ found.toList }
    | .closed => { o with closed := o.closed + 1 }
    | .filtered => { o with filtered := o.filtered + 1 }
  { o with done := o.done + 1, elapsed := elapsed }

/-- Where a worker is in its loop.  The place in the list of the port it has is kept to say which
ports are probed. -/
inductive Worker where
  /-- About to take the cursor's lock. -/
  | idle
  | took (place : ℕ) (port : UInt16)
  | probed (state : PortState) (found : Option PortResult)
  | folded (snapshot : ScanOutcome)
  | stopped
deriving DecidableEq

/-- A probe made. -/
structure Probed where
  place : ℕ
  port : UInt16
  answer : Answered
deriving DecidableEq

/-- The scan by `n` workers. -/
structure Scan (n : ℕ) where
  ports : List UInt16
  cursor : ℕ
  progress : ScanOutcome
  worker : Fin n → Worker
  /-- The probes made so far. -/
  probes : List Probed
  /-- The records published so far. -/
  published : List ScanOutcome

/-- A step of one worker: a critical section, a probe or a publication. -/
inductive ScanEvent (n : ℕ) where
  | take (w : Fin n)
  | probe (w : Fin n) (answer : Answered)
  | fold (w : Fin n) (elapsed : ℕ)
  | publish (w : Fin n)

namespace Scan

variable {n : ℕ}

def put (s : Scan n) (w : Fin n) (x : Worker) : Scan n :=
  { s with worker := Function.update s.worker w x }

@[simp] theorem put_ports (s : Scan n) (w : Fin n) (x : Worker) : (s.put w x).ports = s.ports := rfl
@[simp] theorem put_cursor (s : Scan n) (w : Fin n) (x : Worker) :
    (s.put w x).cursor = s.cursor := rfl
@[simp] theorem put_progress (s : Scan n) (w : Fin n) (x : Worker) :
    (s.put w x).progress = s.progress := rfl
@[simp] theorem put_probes (s : Scan n) (w : Fin n) (x : Worker) :
    (s.put w x).probes = s.probes := rfl
@[simp] theorem put_published (s : Scan n) (w : Fin n) (x : Worker) :
    (s.put w x).published = s.published := rfl
@[simp] theorem put_worker (s : Scan n) (w : Fin n) (x : Worker) :
    (s.put w x).worker = Function.update s.worker w x := rfl

/-- The cursor's critical section, and the end of the loop where the list is at its end. -/
def take (s : Scan n) (w : Fin n) : Option (Scan n) :=
  match s.worker w with
  | .idle =>
    let i := s.cursor
    let s := { s with cursor := s.cursor + 1 }
    match s.ports[i]? with
    | some port => some (s.put w (.took i port))
    | none => some (s.put w .stopped)
  | _ => none

/-- `probe_port`; no step for a panic. -/
def probe (s : Scan n) (w : Fin n) (answer : Answered) : Option (Scan n) :=
  match s.worker w with
  | .took i port =>
    match probePort port answer with
    | .ok (state, found) =>
      let s := { s with probes := s.probes ++ [Probed.mk i port answer] }
      some (s.put w (.probed state found))
    | .error _ => none
  | _ => none

def fold (s : Scan n) (w : Fin n) (elapsed : ℕ) : Option (Scan n) :=
  match s.worker w with
  | .probed state found =>
    let st := s.progress.fold state found elapsed
    let s := { s with progress := st }
    some (s.put w (.folded st))
  | _ => none

def publish (s : Scan n) (w : Fin n) : Option (Scan n) :=
  match s.worker w with
  | .folded snapshot =>
    let s := { s with published := s.published ++ [snapshot] }
    some (s.put w .idle)
  | _ => none

def step (s : Scan n) : ScanEvent n → Option (Scan n)
  | .take w => s.take w
  | .probe w answer => s.probe w answer
  | .fold w elapsed => s.fold w elapsed
  | .publish w => s.publish w

/-- The steps of the workers, in any order. -/
def Step (s : Scan n) (e : ScanEvent n) (s' : Scan n) : Prop := s.step e = some s'

/-- The workers have been spawned. -/
def begun (ports : List UInt16) (target : IpAddr) : Scan (min SCAN_CONCURRENCY ports.length) :=
  ⟨ports, 0, ⟨target, 0, ports.length, 0, [], 0, 0⟩, fun _ => .idle, [], []⟩

/-- `scan` up to where the workers are spawned, with what `resolve_one` gives. -/
def start (ports : List UInt16) (resolved : Except Text IpAddr) :
    Except Text (Scan (min SCAN_CONCURRENCY ports.length)) := do
  if ports.isEmpty then .error (lit "no ports to scan")
  else if MAX_SCAN_PORTS < ports.length then
    .error (lit "at most " ++ decimal MAX_SCAN_PORTS ++ lit " ports per scan")
  else return begun ports (← resolved)

/-- The threads' scope ends when every worker has. -/
def Joined (s : Scan n) : Prop := ∀ w, s.worker w = .stopped

/-- What `scan` returns once its workers have stopped. -/
def finish (s : Scan n) (elapsed : ℕ) : ScanOutcome :=
  { s.progress with
    elapsed := elapsed
    «open» := s.progress.open.mergeSort fun a b => a.port ≤ b.port }

end Scan

/-! ### What a probe finds -/

namespace Probed

def state (p : Probed) : PortState :=
  match p.answer with
  | .failed e => connectState e
  | .connected _ => .«open»

/-- The result of a port that answered. -/
def found (p : Probed) : Option PortResult :=
  match p.answer with
  | .failed _ => none
  | .connected read => some ⟨p.port, serviceName p.port, (banner read).toOption.join⟩

theorem probePort_eq (p : Probed) : probePort p.port p.answer = .ok (p.state, p.found) := by
  obtain ⟨place, port, answer⟩ := p
  cases answer with
  | failed e => rfl
  | connected read =>
      obtain ⟨text, htext⟩ := banner_returns read
      simp [probePort, state, found, htext, Except.toOption]

theorem state_eq_open_iff (p : Probed) : p.state = .«open» ↔ p.found.isSome := by
  obtain ⟨place, port, answer⟩ := p
  cases answer with
  | failed e => cases e <;> simp [state, found, connectState]
  | connected read => simp [state, found]

end Probed

/-! ### One step -/

namespace Scan

variable {n : ℕ} {s s' : Scan n} {w : Fin n}

theorem take_eq_some (h : s.take w = some s') : s.worker w = .idle ∧
    ((∃ port, s.ports[s.cursor]? = some port ∧
        s' = { s with cursor := s.cursor + 1 }.put w (.took s.cursor port)) ∨
      (s.ports.length ≤ s.cursor ∧ s' = { s with cursor := s.cursor + 1 }.put w .stopped)) := by
  rw [take] at h
  split at h
  · next hw =>
      dsimp only at h
      split at h
      · next port hport =>
          cases h
          exact ⟨hw, .inl ⟨port, hport, rfl⟩⟩
      · next hport =>
          cases h
          exact ⟨hw, .inr ⟨List.getElem?_eq_none_iff.mp hport, rfl⟩⟩
  · cases h

theorem probe_eq_some {answer : Answered} (h : s.probe w answer = some s') :
    ∃ p : Probed, s.worker w = .took p.place p.port ∧ p.answer = answer ∧
      s' = { s with probes := s.probes ++ [p] }.put w (.probed p.state p.found) := by
  rw [probe] at h
  split at h
  · next i port hw =>
      have hp := Probed.probePort_eq ⟨i, port, answer⟩
      dsimp only at hp
      rw [hp] at h
      cases h
      exact ⟨⟨i, port, answer⟩, hw, rfl, rfl⟩
  · cases h

theorem fold_eq_some {elapsed : ℕ} (h : s.fold w elapsed = some s') :
    ∃ state found, s.worker w = .probed state found ∧
      s' = { s with progress := s.progress.fold state found elapsed }.put w
        (.folded (s.progress.fold state found elapsed)) := by
  rw [fold] at h
  split at h
  · next state found hw =>
      cases h
      exact ⟨state, found, hw, rfl⟩
  · cases h

theorem publish_eq_some (h : s.publish w = some s') :
    ∃ o, s.worker w = .folded o ∧
      s' = { s with published := s.published ++ [o] }.put w .idle := by
  rw [publish] at h
  split at h
  · next o hw =>
      cases h
      exact ⟨o, hw, rfl⟩
  · cases h

/-- A sum over the workers, after one has moved on. -/
theorem sum_put {M : Type} [AddCommMonoid M] (f : Worker → M) (s : Scan n) (w : Fin n)
    (x : Worker) :
    ∑ v, f ((s.put w x).worker v) + f (s.worker w) = ∑ v, f (s.worker v) + f x := by
  have hupdate : ∀ v, f ((s.put w x).worker v) =
      Function.update (fun v => f (s.worker v)) w (f x) v :=
    fun v => Function.apply_update (fun _ => f) s.worker w x v
  have hsum := Finset.sum_erase_add Finset.univ (fun v => f (s.worker v)) (Finset.mem_univ w)
  rw [Finset.sum_congr rfl fun v _ => hupdate v, Finset.sum_update_of_mem (Finset.mem_univ w),
    Finset.sdiff_singleton_eq_erase, ← hsum]
  rw [add_assoc, add_comm]

end Scan

/-! ### What is accounted for -/

/-- Each port that is done is counted in one of three ways. -/
def ScanOutcome.Sound (total : ℕ) (o : ScanOutcome) : Prop :=
  o.open.length + o.closed + o.filtered = o.done ∧ o.done ≤ o.total ∧ o.total = total

namespace ScanOutcome

variable {o : ScanOutcome} {state : PortState} {found : Option PortResult} {elapsed : ℕ}

@[simp] theorem fold_done : (o.fold state found elapsed).done = o.done + 1 := by
  cases state <;> rfl

@[simp] theorem fold_total : (o.fold state found elapsed).total = o.total := by
  cases state <;> rfl

/-- A port is recorded as open when it has a result. -/
theorem fold_open (h : state = .«open» ↔ found.isSome) :
    (o.fold state found elapsed).open = o.open ++ found.toList := by
  cases state with
  | «open» => rfl
  | closed | filtered =>
      have hnone : found = none := by simpa using h
      simp [fold, hnone]

theorem fold_counts (h : state = .«open» ↔ found.isSome) :
    (o.fold state found elapsed).open.length + (o.fold state found elapsed).closed +
        (o.fold state found elapsed).filtered =
      o.open.length + o.closed + o.filtered + 1 := by
  cases state with
  | «open» =>
      obtain ⟨r, rfl⟩ := Option.isSome_iff_exists.mp (h.mp rfl)
      simp only [fold, Option.toList_some, List.length_append, List.length_singleton]
      omega
  | closed | filtered =>
      simp only [fold]
      omega

end ScanOutcome

namespace Worker

/-- The places of the list taken and not probed yet. -/
def held : Worker → Multiset ℕ
  | .took place _ => {place}
  | _ => 0

/-- The probes not counted yet. -/
def uncounted : Worker → ℕ
  | .probed _ _ => 1
  | _ => 0

/-- Their results. -/
def unrecorded : Worker → Multiset PortResult
  | .probed _ found => ↑found.toList
  | _ => 0

/-- The steps of the worker until it has stopped, if no port is left for it to take. -/
def left : Worker → ℕ
  | .stopped => 0
  | .idle => 1
  | .folded _ => 2
  | .probed _ _ => 3
  | .took _ _ => 4

/-- What a worker has is what it should be. -/
def Fits (ports : List UInt16) (cursor : ℕ) : Worker → Prop
  | .idle => True
  | .took place port => ports[place]? = some port
  | .probed state found => state = .«open» ↔ found.isSome
  | .folded o => o.Sound ports.length
  | .stopped => ports.length ≤ cursor

theorem Fits.mono {ports : List UInt16} {c c' : ℕ} (hc : c ≤ c') {x : Worker}
    (h : x.Fits ports c) : x.Fits ports c' := by
  cases x with
  | stopped => exact Nat.le_trans h hc
  | idle | took | probed | folded => exact h

end Worker

/-- Every place of the list the cursor has passed was probed or is held by one worker, and every probe
is counted in the record or has a worker about to count it. -/
structure Scan.Accounted {n : ℕ} (s : Scan n) : Prop where
  port_of : ∀ p ∈ s.probes, s.ports[p.place]? = some p.port
  places : ((s.probes.map Probed.place : List ℕ) : Multiset ℕ) + ∑ w, (s.worker w).held =
    Multiset.range (min s.cursor s.ports.length)
  counted : s.progress.done + ∑ w, (s.worker w).uncounted = s.probes.length
  recorded : (s.progress.open : Multiset PortResult) + ∑ w, (s.worker w).unrecorded =
    ((s.probes.filterMap Probed.found : List PortResult) : Multiset PortResult)
  balanced : s.progress.open.length + s.progress.closed + s.progress.filtered = s.progress.done
  total : s.progress.total = s.ports.length
  fits : ∀ w, (s.worker w).Fits s.ports s.cursor
  sound : ∀ o ∈ s.published, o.Sound s.ports.length

namespace Scan.Accounted

variable {n : ℕ} {s s' : Scan n} {w : Fin n}

theorem length_probes_le (h : s.Accounted) : s.probes.length ≤ s.ports.length := by
  have hcard := congrArg Multiset.card h.places
  rw [Multiset.card_add, Multiset.coe_card, List.length_map, Multiset.card_range] at hcard
  omega

/-- What the other workers have still fits. -/
theorem fits_put (h : s.Accounted) {x : Worker} {c : ℕ} (hc : s.cursor ≤ c)
    (hx : x.Fits s.ports c) : ∀ v, ((s.put w x).worker v).Fits s.ports c := by
  rw [put_worker, Function.forall_update_iff s.worker fun _ x => x.Fits s.ports c]
  exact ⟨hx, fun v _ => (h.fits v).mono hc⟩

/-- A step that leaves the probes and the record as they are, of a worker that holds no probe before
or after. -/
theorem of_held (h : s.Accounted) {x : Worker} {c : ℕ} {published : List ScanOutcome}
    (hs' : s' = { s with cursor := c, published := published }.put w x)
    (hcount : (s.worker w).uncounted = 0) (hcount' : x.uncounted = 0)
    (hrecord : (s.worker w).unrecorded = 0) (hrecord' : x.unrecorded = 0)
    (hc : s.cursor ≤ c) (hx : x.Fits s.ports c)
    (hheld : Multiset.range (min s.cursor s.ports.length) + x.held =
      Multiset.range (min c s.ports.length) + (s.worker w).held)
    (hsound : ∀ o ∈ published, o.Sound s.ports.length) : s'.Accounted := by
  have hplaces := sum_put Worker.held s w x
  have hcounted := sum_put Worker.uncounted s w x
  have hrecorded := sum_put Worker.unrecorded s w x
  rw [hcount, hcount', add_zero, add_zero] at hcounted
  rw [hrecord, hrecord', add_zero, add_zero] at hrecorded
  subst hs'
  refine ⟨h.port_of, ?_, ?_, ?_, h.balanced, h.total, h.fits_put hc hx, hsound⟩
  · refine add_right_cancel (b := (s.worker w).held) ?_
    calc _ + (s.worker w).held
        = ↑(s.probes.map Probed.place) +
            (∑ v, ((s.put w x).worker v).held + (s.worker w).held) := add_assoc _ _ _
      _ = Multiset.range (min c s.ports.length) + (s.worker w).held := by
          rw [hplaces, ← add_assoc, h.places, hheld]
  · exact (congrArg (s.progress.done + ·) hcounted).trans h.counted
  · exact (congrArg ((s.progress.open : Multiset PortResult) + ·) hrecorded).trans h.recorded

theorem take (h : s.Accounted) (hs : s.take w = some s') : s'.Accounted := by
  obtain ⟨hw, ⟨port, hport, hs'⟩ | ⟨hend, hs'⟩⟩ := take_eq_some hs
  · refine h.of_held hs' (by rw [hw]; rfl) rfl (by rw [hw]; rfl) rfl (Nat.le_succ _) hport ?_ h.sound
    have hlt := (List.getElem?_eq_some_iff.mp hport).1
    rw [hw, Nat.min_eq_left hlt.le, Nat.min_eq_left hlt, Multiset.range_succ]
    simp only [Worker.held, add_zero]
    rw [add_comm, Multiset.singleton_add]
  · refine h.of_held hs' (by rw [hw]; rfl) rfl (by rw [hw]; rfl) rfl (Nat.le_succ _)
      (Nat.le_succ_of_le hend) ?_ h.sound
    rw [hw, Nat.min_eq_right hend, Nat.min_eq_right (Nat.le_succ_of_le hend)]
    rfl

theorem publish (h : s.Accounted) (hs : s.publish w = some s') : s'.Accounted := by
  obtain ⟨o, hw, hs'⟩ := publish_eq_some hs
  refine h.of_held hs' (by rw [hw]; rfl) rfl (by rw [hw]; rfl) rfl le_rfl trivial ?_ ?_
  · rw [hw]
    rfl
  · have hfits := h.fits w
    rw [hw] at hfits
    intro o' ho'
    rcases List.mem_append.mp ho' with ho' | ho'
    · exact h.sound o' ho'
    · cases List.mem_singleton.mp ho'
      exact hfits

/-- A place passes from the worker that held it to the probes, with a result to be recorded. -/
theorem probe (h : s.Accounted) {answer : Answered} (hs : s.probe w answer = some s') :
    s'.Accounted := by
  obtain ⟨p, hw, -, rfl⟩ := probe_eq_some hs
  have hfits := h.fits w
  rw [hw] at hfits
  set x : Worker := .probed p.state p.found with hx
  have hheld : ∑ v, ((s.put w x).worker v).held + {p.place} = ∑ v, (s.worker v).held := by
    have := sum_put Worker.held s w x
    rw [hw] at this
    exact this.trans (add_zero _)
  have huncounted : ∑ v, ((s.put w x).worker v).uncounted = ∑ v, (s.worker v).uncounted + 1 := by
    simpa only [hw, Worker.uncounted, add_zero] using sum_put Worker.uncounted s w x
  have hunrecorded : ∑ v, ((s.put w x).worker v).unrecorded =
      ∑ v, (s.worker v).unrecorded + ↑p.found.toList := by
    simpa only [hw, Worker.unrecorded, add_zero] using sum_put Worker.unrecorded s w x
  have hplaces : (((s.probes ++ [p]).map Probed.place : List ℕ) : Multiset ℕ) =
      ↑(s.probes.map Probed.place) + {p.place} := by
    rw [List.map_append, ← Multiset.coe_add]
    rfl
  have hresults : (((s.probes ++ [p]).filterMap Probed.found : List PortResult) :
      Multiset PortResult) = ↑(s.probes.filterMap Probed.found) + ↑p.found.toList := by
    rw [List.filterMap_append, ← Multiset.coe_add]
    cases hfound : p.found <;> simp [hfound]
  refine ⟨?_, ?_, ?_, ?_, h.balanced, h.total, h.fits_put le_rfl p.state_eq_open_iff, h.sound⟩
  · intro q hq
    rcases List.mem_append.mp hq with hq | hq
    · exact h.port_of q hq
    · cases List.mem_singleton.mp hq
      exact hfits
  · calc _ = (↑(s.probes.map Probed.place) + {p.place}) + ∑ v, ((s.put w x).worker v).held :=
          congrArg (· + _) hplaces
      _ = Multiset.range (min s.cursor s.ports.length) := by
          rw [add_assoc, add_comm ({p.place} : Multiset ℕ), hheld, h.places]
  · calc _ = s.progress.done + (∑ v, (s.worker v).uncounted + 1) :=
          congrArg (s.progress.done + ·) huncounted
      _ = (s.probes ++ [p]).length := by
          rw [← add_assoc, h.counted, List.length_append, List.length_singleton]
  · calc _ = (s.progress.open : Multiset PortResult) +
            (∑ v, (s.worker v).unrecorded + ↑p.found.toList) := congrArg (_ + ·) hunrecorded
      _ = ↑((s.probes ++ [p]).filterMap Probed.found) := by
          rw [← add_assoc, h.recorded, hresults]

/-- A result is recorded, and its port counted. -/
theorem fold (h : s.Accounted) {elapsed : ℕ} (hs : s.fold w elapsed = some s') : s'.Accounted := by
  obtain ⟨state, found, hw, rfl⟩ := fold_eq_some hs
  have hfits := h.fits w
  rw [hw] at hfits
  set st := s.progress.fold state found elapsed with hst
  have hheld : ∑ v, ((s.put w (.folded st)).worker v).held = ∑ v, (s.worker v).held := by
    simpa only [hw, Worker.held, add_zero] using sum_put Worker.held s w (.folded st)
  have huncounted : ∑ v, ((s.put w (.folded st)).worker v).uncounted + 1 =
      ∑ v, (s.worker v).uncounted := by
    simpa only [hw, Worker.uncounted, add_zero] using sum_put Worker.uncounted s w (.folded st)
  have hunrecorded : ∑ v, ((s.put w (.folded st)).worker v).unrecorded + ↑found.toList =
      ∑ v, (s.worker v).unrecorded := by
    simpa only [hw, Worker.unrecorded, add_zero] using sum_put Worker.unrecorded s w (.folded st)
  have hdone : st.done = s.progress.done + 1 := ScanOutcome.fold_done
  have hcounted : st.done + ∑ v, ((s.put w (.folded st)).worker v).uncounted =
      s.probes.length := by
    rw [hdone, add_assoc, add_comm 1, huncounted, h.counted]
  have hbalanced : st.open.length + st.closed + st.filtered = st.done := by
    rw [ScanOutcome.fold_counts hfits, h.balanced, hdone]
  have htotal : st.total = s.ports.length := ScanOutcome.fold_total.trans h.total
  have hle := h.length_probes_le
  have hsound : st.Sound s.ports.length := ⟨hbalanced, by omega, htotal⟩
  refine ⟨h.port_of, ?_, hcounted, ?_, hbalanced, htotal, h.fits_put le_rfl hsound, h.sound⟩
  · exact (congrArg (_ + ·) hheld).trans h.places
  · calc _ = ((s.progress.open ++ found.toList : List PortResult) : Multiset PortResult) +
            ∑ v, ((s.put w (.folded st)).worker v).unrecorded :=
          congrArg (fun rs : List PortResult => (rs : Multiset PortResult) + _)
            (ScanOutcome.fold_open hfits)
      _ = ↑(s.probes.filterMap Probed.found) := by
          rw [← Multiset.coe_add, add_assoc, add_comm (found.toList : Multiset PortResult),
            hunrecorded, h.recorded]

theorem step (h : s.Accounted) {e : ScanEvent n} (hs : Step s e s') : s'.Accounted := by
  cases e with
  | take w => exact h.take hs
  | probe w answer => exact h.probe hs
  | fold w elapsed => exact h.fold hs
  | publish w => exact h.publish hs

theorem begun (ports : List UInt16) (target : IpAddr) : (Scan.begun ports target).Accounted where
  port_of := fun _ hp => absurd hp List.not_mem_nil
  places := by simp [Scan.begun, Worker.held]
  counted := by simp [Scan.begun, Worker.uncounted]
  recorded := by simp [Scan.begun, Worker.unrecorded]
  balanced := rfl
  total := rfl
  fits := fun _ => trivial
  sound := fun _ ho => absurd ho List.not_mem_nil

end Scan.Accounted

/-! ### Runs -/

namespace Scan

variable {n : ℕ} {s s' : Scan n}

/-- The list is never written. -/
theorem Step.ports {e : ScanEvent n} (h : Step s e s') : s'.ports = s.ports := by
  cases e with
  | take w =>
      obtain ⟨-, ⟨port, -, rfl⟩ | ⟨-, rfl⟩⟩ := take_eq_some h
      · rfl
      · rfl
  | probe w answer =>
      obtain ⟨p, -, -, rfl⟩ := probe_eq_some h
      rfl
  | fold w elapsed =>
      obtain ⟨state, found, -, rfl⟩ := fold_eq_some h
      rfl
  | publish w =>
      obtain ⟨o, -, rfl⟩ := publish_eq_some h
      rfl

theorem accounted_of_run {ports : List UInt16} {target : IpAddr}
    {s : Scan (min SCAN_CONCURRENCY ports.length)} {es : List (ScanEvent _)}
    (h : Run Step (begun ports target) es s) : s.Accounted ∧ s.ports = ports :=
  h.invariant (I := fun s => s.Accounted ∧ s.ports = ports)
    (fun _ _ _ hi he => ⟨hi.1.step he, he.ports.trans hi.2⟩) ⟨.begun ports target, rfl⟩

/-- No place of the list is probed twice. -/
theorem Accounted.nodup_places (h : s.Accounted) : (s.probes.map Probed.place).Nodup := by
  rw [← Multiset.coe_nodup]
  refine Multiset.nodup_of_le (Multiset.le_add_right _ (∑ w, (s.worker w).held)) ?_
  rw [h.places]
  exact Multiset.nodup_range _

/-! ### The end of the threads' scope -/

theorem Accounted.length_le_cursor (h : s.Accounted) (hn : 0 < n) (hj : s.Joined) :
    s.ports.length ≤ s.cursor := by
  have := h.fits ⟨0, hn⟩
  rwa [hj] at this

theorem Joined.sum_eq {M : Type} [AddCommMonoid M] {f : Worker → M} (hj : s.Joined)
    (hf : f .stopped = 0) : ∑ w, f (s.worker w) = 0 := by
  rw [Finset.sum_congr rfl fun w _ => by rw [hj w, hf], Finset.sum_const_zero]

/-- Every place has been probed. -/
theorem Accounted.perm_places (h : s.Accounted) (hn : 0 < n) (hj : s.Joined) :
    (s.probes.map Probed.place).Perm (List.range s.ports.length) := by
  have hplaces := h.places
  rw [hj.sum_eq rfl, add_zero, Nat.min_eq_right (h.length_le_cursor hn hj)] at hplaces
  exact Multiset.coe_eq_coe.mp hplaces

theorem Accounted.done_eq (h : s.Accounted) (hn : 0 < n) (hj : s.Joined) :
    s.progress.done = s.ports.length := by
  have hcounted := h.counted
  have hlength := (h.perm_places hn hj).length_eq
  rw [hj.sum_eq rfl, add_zero] at hcounted
  rw [List.length_map, List.length_range] at hlength
  rw [hcounted, hlength]

theorem Accounted.perm_open (h : s.Accounted) (hj : s.Joined) :
    s.progress.open.Perm (s.probes.filterMap Probed.found) := by
  have hrecorded := h.recorded
  rw [hj.sum_eq rfl, add_zero] at hrecorded
  exact Multiset.coe_eq_coe.mp hrecorded

theorem perm_finish (s : Scan n) (elapsed : ℕ) : (s.finish elapsed).open.Perm s.progress.open :=
  List.mergeSort_perm _ _

theorem pairwise_finish (s : Scan n) (elapsed : ℕ) :
    (s.finish elapsed).open.Pairwise fun a b => a.port ≤ b.port := by
  have hsorted : (s.finish elapsed).open.Pairwise fun a b => decide (a.port ≤ b.port) = true := by
    refine List.pairwise_mergeSort (fun a b c hab hbc => ?_) (fun a b => ?_) _
    · rw [decide_eq_true_eq] at *
      exact UInt16.le_trans hab hbc
    · simpa using UInt16.le_total a.port b.port
  exact hsorted.imp fun hab => of_decide_eq_true hab

/-! ### The workers stop -/

/-- The steps left: four for each port of the list not taken yet, and those of each worker. -/
def left (s : Scan n) : ℕ := 4 * (s.ports.length - s.cursor) + ∑ w, (s.worker w).left

/-- Where one worker has moved on by a step. -/
theorem left_put {w : Fin n} (x : Worker) (hports : s'.ports = s.ports)
    (hworker : s'.worker = (s.put w x).worker)
    (hleft : 4 * (s.ports.length - s.cursor) + (s.worker w).left =
      4 * (s.ports.length - s'.cursor) + x.left + 1) : s.left = s'.left + 1 := by
  have hsum := sum_put Worker.left s w x
  rw [left, left, hports, hworker]
  omega

/-- Every step is one of them. -/
theorem Step.left_eq {e : ScanEvent n} (h : Step s e s') : s.left = s'.left + 1 := by
  cases e with
  | take w =>
      obtain ⟨hw, ⟨port, hport, rfl⟩ | ⟨hend, rfl⟩⟩ := take_eq_some h
      · have hlt := (List.getElem?_eq_some_iff.mp hport).1
        refine left_put (.took s.cursor port) rfl rfl ?_
        rw [hw, put_cursor]
        simp only [Worker.left]
        omega
      · refine left_put .stopped rfl rfl ?_
        rw [hw, put_cursor]
        simp only [Worker.left]
        omega
  | probe w answer =>
      obtain ⟨p, hw, -, rfl⟩ := probe_eq_some h
      exact left_put (.probed p.state p.found) rfl rfl (by rw [hw]; rfl)
  | fold w elapsed =>
      obtain ⟨state, found, hw, rfl⟩ := fold_eq_some h
      exact left_put (.folded (s.progress.fold state found elapsed)) rfl rfl (by rw [hw]; rfl)
  | publish w =>
      obtain ⟨o, hw, rfl⟩ := publish_eq_some h
      exact left_put .idle rfl rfl (by rw [hw]; rfl)

theorem left_begun (ports : List UInt16) (target : IpAddr) :
    (begun ports target).left = 4 * ports.length + min SCAN_CONCURRENCY ports.length := by
  simp [left, begun, Worker.left]

/-- Until the scope ends some worker has a step to take. -/
theorem exists_step (h : ¬ s.Joined) : ∃ e s', Step s e s' := by
  rw [Joined, not_forall] at h
  obtain ⟨w, hw⟩ := h
  cases hs : s.worker w with
  | idle =>
      refine ⟨.take w, ?_⟩
      simp only [Step, step, take, hs]
      cases s.ports[s.cursor]? with
      | none => exact ⟨_, rfl⟩
      | some port => exact ⟨_, rfl⟩
  | took place port =>
      refine ⟨.probe w (.failed .refused), ?_⟩
      simp only [Step, step, probe, hs]
      exact ⟨_, rfl⟩
  | probed state found =>
      refine ⟨.fold w 0, ?_⟩
      simp only [Step, step, fold, hs]
      exact ⟨_, rfl⟩
  | folded o =>
      refine ⟨.publish w, ?_⟩
      simp only [Step, step, publish, hs]
      exact ⟨_, rfl⟩
  | stopped => exact absurd hs hw

/-- A run is never longer than the steps there are. -/
theorem length_run {es : List (ScanEvent n)} (h : Run Step s es s') :
    es.length + s'.left = s.left := by
  induction h with
  | refl => exact Nat.zero_add _
  | more he _ ih =>
      rw [he.left_eq, ← ih, List.length_cons]
      omega

/-- From wherever a run has come to, the workers can go on until they have stopped. -/
theorem exists_joined (s : Scan n) : ∃ es s', Run Step s es s' ∧ s'.Joined := by
  induction hleft : s.left generalizing s with
  | zero =>
      refine ⟨[], s, .refl s, by_contra fun hj => ?_⟩
      obtain ⟨e, s', he⟩ := exists_step hj
      have := he.left_eq
      omega
  | succ k ih =>
      by_cases hj : s.Joined
      · exact ⟨[], s, .refl s, hj⟩
      · obtain ⟨e, s₁, he⟩ := exists_step hj
        obtain ⟨es, s', hr, hj'⟩ := ih s₁ (by have := he.left_eq; omega)
        exact ⟨e :: es, s', .more he hr, hj'⟩

/-- A scan takes at most four steps for each port and one for each worker, and wherever it has come to,
it can go on until the workers have stopped. -/
theorem begun_stops (ports : List UInt16) (target : IpAddr) {es : List (ScanEvent _)}
    {s : Scan (min SCAN_CONCURRENCY ports.length)} (h : Run Step (begun ports target) es s) :
    es.length ≤ 4 * ports.length + min SCAN_CONCURRENCY ports.length ∧
      ∃ es' s', Run Step s es' s' ∧ s'.Joined := by
  refine ⟨?_, exists_joined s⟩
  rw [← left_begun ports target, ← length_run h]
  exact Nat.le_add_right _ _

end Scan

/-- **A scan accounts for every port.**  Of a list of ports that is not empty nor too long, the
workers are started; and whatever the answers of the ports and the order of the workers' steps, no
place of the list is probed twice, and every record published counts each port that is done once.
When the workers have stopped every place has been probed, and the open ports are the results of
those that answered, in the order of their numbers. -/
theorem scan_accounts (ports : List UInt16) (target : IpAddr) (hne : ports ≠ [])
    (hlen : ports.length ≤ MAX_SCAN_PORTS) :
    Scan.start ports (.ok target) = .ok (Scan.begun ports target) ∧
    ∀ es s, Run Scan.Step (Scan.begun ports target) es s →
      ((s.probes.map Probed.place).Nodup ∧ ∀ p ∈ s.probes, ports[p.place]? = some p.port) ∧
      (∀ o ∈ s.published, o.open.length + o.closed + o.filtered = o.done ∧ o.done ≤ o.total ∧
        o.total = ports.length) ∧
      (s.Joined → (s.probes.map Probed.place).Perm (List.range ports.length) ∧
        ∀ elapsed, (s.finish elapsed).done = ports.length ∧ (s.finish elapsed).total = ports.length ∧
          (s.finish elapsed).open.Perm (s.probes.filterMap Probed.found) ∧
          (s.finish elapsed).open.Pairwise fun a b => a.port ≤ b.port) := by
  have hpos : 0 < ports.length := List.length_pos_iff.mpr hne
  have hn : 0 < min SCAN_CONCURRENCY ports.length := Nat.lt_min.mpr ⟨by decide, hpos⟩
  refine ⟨?_, fun es s hr => ?_⟩
  · rw [Scan.start, if_neg (by simpa using hne), if_neg (by omega)]
    rfl
  obtain ⟨h, hports⟩ := Scan.accounted_of_run hr
  have hport := h.port_of
  have hsound := h.sound
  have htotal := h.total
  rw [hports] at hport hsound htotal
  refine ⟨⟨h.nodup_places, hport⟩, hsound, fun hj => ?_⟩
  have hplaces := h.perm_places hn hj
  have hdone := h.done_eq hn hj
  rw [hports] at hplaces hdone
  exact ⟨hplaces, fun elapsed => ⟨hdone, htotal, (s.perm_finish elapsed).trans (h.perm_open hj),
    s.pairwise_finish elapsed⟩⟩

/-- Two workers, the first of which publishes after the second has counted its port, and before. -/
theorem scan_accounts_two :
    ∃ es s, Run Scan.Step (Scan.begun [443, 80] (.v4 ⟨10, 0, 0, 1⟩)) es s ∧ s.Joined ∧
      s.published.map ScanOutcome.done = [2, 1] ∧
      (s.probes.map Probed.place).Perm (List.range 2) ∧ (s.finish 9).done = 2 ∧
      (s.finish 9).open.Perm (s.probes.filterMap Probed.found) := by
  obtain ⟨es, s, hr, hj, hdone⟩ : ∃ es s,
      Run Scan.Step (Scan.begun [443, 80] (.v4 ⟨10, 0, 0, 1⟩)) es s ∧ s.Joined ∧
        s.published.map ScanOutcome.done = [2, 1] := by
    have hr : Run Scan.Step (Scan.begun [443, 80] (.v4 ⟨10, 0, 0, 1⟩))
        [.take ⟨0, by decide⟩, .take ⟨1, by decide⟩,
          .probe ⟨1, by decide⟩ (.connected (some [0x68, 0x69])),
          .probe ⟨0, by decide⟩ (.failed .refused), .fold ⟨1, by decide⟩ 5,
          .fold ⟨0, by decide⟩ 7, .publish ⟨0, by decide⟩, .take ⟨0, by decide⟩,
          .publish ⟨1, by decide⟩, .take ⟨1, by decide⟩] _ :=
      .more rfl (.more rfl (.more rfl (.more rfl (.more rfl (.more rfl (.more rfl (.more rfl
        (.more rfl (.more rfl (.refl _))))))))))
    refine ⟨_, _, hr, fun w => ?_, rfl⟩
    match w with
    | ⟨0, _⟩ => rfl
    | ⟨1, _⟩ => rfl
  have h := (scan_accounts [443, 80] (.v4 ⟨10, 0, 0, 1⟩) (by decide) (by decide)).2 es s hr
  obtain ⟨hplaces, hend⟩ := h.2.2 hj
  exact ⟨es, s, hr, hj, hdone, hplaces, (hend 9).1, (hend 9).2.2.1⟩

end Tunnel.Probe
