import Tunnel.Engine.Run

/-!
# Engine — The tripwire

`watch_loop`: the thread that watches the routing table, which others change at any time.  Each
program it runs reads the table as it is at that moment, so a verdict is made of readings at several
moments; a change of the table leaves a message in the socket of the watcher.

* `egress_of_lookup`: the most specific route to an address decides.
* `Watcher.Inv`: what the watcher knows of the table; it never rests on an injected route without a
  message that wakes it.
* `trips_injected`: it trips only on a route that is more specific than the tunnel's own.
* `alone_trips`: an injected route that stays trips it, if its look did not fail or it looks again.
-/

namespace Tunnel.Engine
open Support Text Route

/-! ### The routing decision -/

/-- The first `n` bits of a byte. -/
def maskByte (n : ℕ) (b : UInt8) : UInt8 := .ofNat (b.toNat / 2 ^ (8 - n) * 2 ^ (8 - n))

/-- The prefix of that length that an address is in. -/
def prefixOf (ip : Ipv4Addr) (n : ℕ) : Prefix where
  base := .v4
    ⟨maskByte n ip.a, maskByte (n - 8) ip.b, maskByte (n - 16) ip.c, maskByte (n - 24) ip.d⟩
  bits := n

abbrev Routes := Table Prefix Hop

/-- `ip route get`: the longest prefix of the address that is routed. -/
def egressBelow (t : Routes) (ip : Ipv4Addr) : ℕ → Option (ℕ × Hop)
  | 0 => (t.lookup (prefixOf ip 0)).map fun hop => (0, hop)
  | n + 1 =>
    match t.lookup (prefixOf ip (n + 1)) with
    | some hop => some (n + 1, hop)
    | none => egressBelow t ip n

def egress (t : Routes) (ip : Ipv4Addr) : Option (ℕ × Hop) := egressBelow t ip 32

def egressDev (t : Routes) (ip : Ipv4Addr) : Option Text := (egress t ip).map fun x => x.2.iface

/-- `ip route show`. -/
def routeDev (t : Routes) (dest : Prefix) : Option Text := (t.lookup dest).map fun hop => hop.iface

/-! ### The verdict -/

/-- `CANARIES`. -/
def canaries : List Ipv4Addr :=
  [⟨1, 1, 1, 1⟩, ⟨8, 8, 8, 8⟩, ⟨9, 9, 9, 9⟩, ⟨208, 67, 222, 222⟩, ⟨192, 0, 2, 1⟩, ⟨198, 51, 100, 1⟩,
    ⟨203, 0, 113, 1⟩]

/-- The test of `first_leaking_canary`. -/
def leaks (tun : Text) (t : Routes) (canary : Ipv4Addr) : Bool :=
  match egressDev t canary with
  | some dev => dev ≠ tun && dev ≠ lit "lo"
  | none => false

/-- The test of `tunnel_routes_intact`, for one of the halves. -/
def holdsHalf (tun : Text) (t : Routes) (half : Prefix) : Bool := routeDev t half = some tun

/-- Where the watcher is: `again` is the second look of `detect_attack`, after the delay. -/
inductive Watch where
  | opening
  | scan (again : Bool) (left : List Ipv4Addr)
  | lower (again : Bool) (leak : Ipv4Addr)
  | upper (again : Bool) (leak : Ipv4Addr)
  | confirm
  | resting
  | reading
  | stopped
  | tripped (leak : Option Ipv4Addr)
deriving DecidableEq

/-- The watcher, the table it watches, and the messages it has not read. -/
structure Watcher where
  tun : Text
  table : Routes
  messages : ℕ
  shutdown : Bool
  stop : Bool
  watch : Watch
  /-- The table has changed since the first look began. -/
  stale : Bool
  /-- The table at the last reading of a canary that leaked. -/
  seen : Routes
  /-- A half of the tunnel has come back since. -/
  back : Bool
  /-- A program has failed since the first look began. -/
  blind : Bool

namespace Watcher

variable (w : Watcher)

/-- Before the thread has started. -/
def spawned (tun : Text) (table : Routes) : Watcher :=
  ⟨tun, table, 0, false, false, .opening, false, table, false, false⟩

/-- A look begins. -/
def look : Watcher := { w with watch := .scan false canaries, stale := false, blind := false }

/-- The watcher's next step.  `ok` is whether the socket opens, whether the program runs, and whether
`recv` returns a message that there is. -/
def step (ok : Bool) : Watcher :=
  match w.watch with
  | .opening => if ok then w.look else { w with watch := .tripped none }
  | .scan _ [] => { w with watch := .resting }
  | .scan again (canary :: left) =>
    if !ok then { w with watch := .scan again left, blind := true }
    else if leaks w.tun w.table canary then
      { w with watch := .lower again canary, seen := w.table, back := false }
    else { w with watch := .scan again left }
  | .lower again leak =>
    if !ok then { w with watch := .resting, blind := true }
    else if holdsHalf w.tun w.table lowerHalf then { w with watch := .upper again leak }
    else { w with watch := .resting }
  | .upper again leak =>
    if !ok then { w with watch := .resting, blind := true }
    else if holdsHalf w.tun w.table upperHalf then
      { w with watch := if again then .tripped (some leak) else .confirm }
    else { w with watch := .resting }
  | .confirm =>
    if w.shutdown then { w with watch := .resting } else { w with watch := .scan true canaries }
  | .resting =>
    if w.stop || w.shutdown then { w with watch := .stopped }
    else if ok ∧ 0 < w.messages then { w with messages := w.messages - 1, watch := .reading }
    else w
  | .reading => if w.shutdown then { w with watch := .resting } else w.look
  | .stopped => w
  | .tripped _ => w

/-- Somebody changes the table.  The message about it is dropped only where others wait. -/
def change (table : Routes) (dropped : Bool) : Watcher :=
  { w with
    table
    messages := match w.watch with
      | .opening => w.messages
      | _ => if dropped ∧ 0 < w.messages then w.messages else w.messages + 1
    stale := true
    back := w.back || [lowerHalf, upperHalf].any fun half =>
      holdsHalf w.tun table half && !holdsHalf w.tun w.table half }

end Watcher

inductive WatchEvent where
  | step (ok : Bool)
  | change (table : Routes) (dropped : Bool)
  /-- The dashboard closes, or the guard is dropped. -/
  | shutdown
  | stop

def Watcher.next (w : Watcher) : WatchEvent → Watcher
  | .step ok => w.step ok
  | .change table dropped => w.change table dropped
  | .shutdown => { w with shutdown := true }
  | .stop => { w with stop := true }

def WatchStep (w : Watcher) (e : WatchEvent) (w' : Watcher) : Prop := w.next e = w'

def Watcher.Spawned (w : Watcher) : Prop := ∃ tun table, w = .spawned tun table

def WatchReachable : Watcher → Prop := Reachable Watcher.Spawned WatchStep

/-! ### The most specific route decides -/

theorem egressBelow_of_lookup {t : Routes} {ip : Ipv4Addr} {n k : ℕ} {hop : Hop} (hk : k ≤ n)
    (h : t.lookup (prefixOf ip k) = some hop) :
    ∃ m hop', egressBelow t ip n = some (m, hop') ∧ k ≤ m ∧
      t.lookup (prefixOf ip m) = some hop' := by
  induction n with
  | zero =>
      obtain rfl : k = 0 := Nat.le_zero.mp hk
      exact ⟨0, hop, by rw [egressBelow, h]; rfl, le_refl 0, h⟩
  | succ n ih =>
      cases hl : t.lookup (prefixOf ip (n + 1)) with
      | some hop' =>
          refine ⟨n + 1, hop', ?_, hk, hl⟩
          rw [egressBelow, hl]
      | none =>
          have hne : k ≠ n + 1 := fun he => by
            rw [he, hl] at h
            cases h
          obtain ⟨m, hop', he, hm⟩ := ih (by omega)
          refine ⟨m, hop', ?_, hm⟩
          rw [egressBelow, hl]
          exact he

theorem egress_of_lookup {t : Routes} {ip : Ipv4Addr} {k : ℕ} {hop : Hop} (hk : k ≤ 32)
    (h : t.lookup (prefixOf ip k) = some hop) :
    ∃ m hop', egress t ip = some (m, hop') ∧ k ≤ m ∧ t.lookup (prefixOf ip m) = some hop' :=
  egressBelow_of_lookup hk h

theorem maskByte_zero (b : UInt8) : maskByte 0 b = 0 := by
  have h : b.toNat / 2 ^ 8 = 0 := Nat.div_eq_of_lt b.toNat_lt
  rw [maskByte, Nat.sub_zero, h]
  rfl

/-- Every address is in one of the halves. -/
theorem prefixOf_one (ip : Ipv4Addr) : prefixOf ip 1 ∈ [lowerHalf, upperHalf] := by
  have hlt : ip.a.toNat / 2 ^ 7 < 2 := Nat.div_lt_of_lt_mul ip.a.toNat_lt
  have hb : maskByte 1 ip.a = 0 ∨ maskByte 1 ip.a = 128 := by
    have hcases : ip.a.toNat / 2 ^ 7 = 0 ∨ ip.a.toNat / 2 ^ 7 = 1 := by omega
    rcases hcases with h | h
    · exact .inl (by rw [maskByte, h]; rfl)
    · exact .inr (by rw [maskByte, h]; rfl)
  have hp : prefixOf ip 1 = ⟨.v4 ⟨maskByte 1 ip.a, 0, 0, 0⟩, 1⟩ := by
    simp only [prefixOf, Nat.reduceSub, maskByte_zero]
  rw [hp]
  rcases hb with h | h
  · rw [h]
    exact List.mem_cons_self
  · rw [h]
    exact List.mem_cons_of_mem _ List.mem_cons_self

/-- Both halves go through the tunnel. -/
def Intact (tun : Text) (t : Routes) : Prop :=
  ∀ half ∈ [lowerHalf, upperHalf], holdsHalf tun t half = true

/-- A route that takes a canary off the tunnel, more specific than the tunnel's own, which are
there. -/
def Injected (tun : Text) (t : Routes) (canary : Ipv4Addr) : Prop :=
  Intact tun t ∧ ∃ n hop, 1 < n ∧ egress t canary = some (n, hop) ∧
    t.lookup (prefixOf canary n) = some hop ∧ hop.iface ≠ tun ∧ hop.iface ≠ lit "lo"

/-- With its own routes in place, only a more specific one takes anything off the tunnel. -/
theorem injected_iff {tun : Text} {t : Routes} {canary : Ipv4Addr} (hi : Intact tun t) :
    Injected tun t canary ↔ leaks tun t canary = true := by
  have hhalf := hi _ (prefixOf_one canary)
  simp only [holdsHalf, routeDev, decide_eq_true_eq, Option.map_eq_some_iff] at hhalf
  obtain ⟨own, hown, htun⟩ := hhalf
  obtain ⟨n, hop, he, hn, hl⟩ := egress_of_lookup (by omega) hown
  constructor
  · rintro ⟨-, n', hop', -, he', -, ht, hlo⟩
    simp only [leaks, egressDev, he', Option.map_some]
    simp [ht, hlo]
  · intro hleak
    simp only [leaks, egressDev, he, Option.map_some, Bool.and_eq_true, decide_eq_true_eq] at hleak
    refine ⟨hi, n, hop, ?_, he, hl, hleak.1, hleak.2⟩
    rcases Nat.lt_or_eq_of_le hn with hlt | heq
    · exact hlt
    · rw [← heq, hown] at hl
      cases hl
      exact absurd htun hleak.1

/-! ### What the watcher knows -/

/-- A look is under way, or the watcher rests after one. -/
def Watch.underway : Watch → Bool
  | .scan _ _ | .lower _ _ | .upper _ _ | .confirm | .resting => true
  | _ => false

namespace Watcher

/-- What a look that nothing has disturbed has found out. -/
def Looked (w : Watcher) : Prop :=
  match w.watch with
  | .scan _ left =>
    ∀ c ∈ canaries, Injected w.tun w.table c → ∃ c ∈ left, leaks w.tun w.table c = true
  | .resting => ∀ c ∈ canaries, ¬ Injected w.tun w.table c
  | _ => True

/-- No half has come to the tunnel since the canary was read, as far as the table tells. -/
def Kept (w : Watcher) (half : Prefix) : Prop :=
  holdsHalf w.tun w.table half = true → holdsHalf w.tun w.seen half = true

/-- What the readings since the last canary that leaked say of the table it was read from. -/
def Seen (w : Watcher) : Prop :=
  match w.watch with
  | .lower _ c => (c ∈ canaries ∧ leaks w.tun w.seen c = true) ∧
      (w.back = false → w.Kept lowerHalf ∧ w.Kept upperHalf)
  | .upper _ c => (c ∈ canaries ∧ leaks w.tun w.seen c = true) ∧
      (w.back = false → holdsHalf w.tun w.seen lowerHalf = true ∧ w.Kept upperHalf)
  | .tripped (some c) => (c ∈ canaries ∧ leaks w.tun w.seen c = true) ∧
      (w.back = false → Intact w.tun w.seen)
  | _ => True

structure Inv (w : Watcher) : Prop where
  told : w.shutdown = false → w.watch.underway = true → w.stale = true → 0 < w.messages
  looked : w.shutdown = false → w.stale = false → w.blind = false → w.Looked
  seen : w.Seen
  left : ∀ again left, w.watch = .scan again left → left <:+ canaries

namespace Inv

variable {w : Watcher}

theorem spawned (tun : Text) (table : Routes) : (spawned tun table).Inv :=
  ⟨nofun, fun _ _ _ => trivial, trivial, nofun⟩

theorem look (w : Watcher) : w.look.Inv where
  told _ _ hs := nomatch hs
  looked _ _ _ c hc hi := ⟨c, hc, (injected_iff hi.1).mp hi⟩
  seen := trivial
  left _ _ h := by
    cases h
    exact List.suffix_rfl

/-- To rest, when the table says so. -/
theorem rest (h : w.Inv) (hw : w.shutdown = false → w.watch.underway = true) (blind : Bool)
    (hb : w.shutdown = false → w.stale = false → blind = false →
      ∀ c ∈ canaries, ¬ Injected w.tun w.table c) :
    { w with watch := .resting, blind := blind : Watcher }.Inv where
  told hs _ := h.told hs (hw hs)
  looked := hb
  seen := trivial
  left _ _ he := nomatch he

/-- To go on with the look, when that needs nothing of the table. -/
theorem go (h : w.Inv) (hw : w.watch.underway = true) {watch : Watch} (hl : ∀ again left,
    watch ≠ .scan again left) (hr : watch ≠ .resting)
    (hs : { w with watch : Watcher }.Seen) : { w with watch : Watcher }.Inv where
  told hd _ := h.told hd hw
  looked _ _ _ := by
    cases watch with
    | scan again left => exact absurd rfl (hl again left)
    | resting => exact absurd rfl hr
    | _ => trivial
  seen := hs
  left again left he := absurd he (hl again left)

/-- A program of the look has failed. -/
theorem go_blind (h : w.Inv) (hw : w.watch.underway = true) {again : Bool} {left : List Ipv4Addr}
    (hl : left <:+ canaries) :
    { w with watch := .scan again left, blind := true : Watcher }.Inv where
  told hd _ := h.told hd hw
  looked _ _ hb := nomatch hb
  seen := trivial
  left _ _ he := by
    cases he
    exact hl

theorem scan (h : w.Inv) {again : Bool} {left : List Ipv4Addr} (hw : w.watch = .scan again left)
    (ok : Bool) : (w.step ok).Inv := by
  have hu : w.watch.underway = true := by rw [hw]; rfl
  have hl := h.left again left hw
  have hlooked : w.shutdown = false → w.stale = false → w.blind = false →
      ∀ c ∈ canaries, Injected w.tun w.table c → ∃ c ∈ left, leaks w.tun w.table c = true := by
    intro hd hs hb
    have hk := h.looked hd hs hb
    rwa [Looked, hw] at hk
  cases left with
  | nil =>
      simp only [Watcher.step, hw]
      refine h.rest (fun _ => hu) w.blind fun hd hs hb c hc hi => ?_
      obtain ⟨_, hm, -⟩ := hlooked hd hs hb c hc hi
      cases hm
  | cons canary left =>
      have hsuffix : left <:+ canaries := (List.suffix_cons canary left).trans hl
      simp only [Watcher.step, hw]
      split_ifs with hok hleak
      · exact h.go_blind hu hsuffix
      · exact ⟨fun hd _ => h.told hd hu, fun _ _ _ => trivial,
          ⟨⟨hl.subset List.mem_cons_self, hleak⟩, fun _ => ⟨id, id⟩⟩, fun _ _ he => nomatch he⟩
      · refine ⟨fun hd _ => h.told hd hu, fun hd hs hb c hc hi => ?_, trivial, ?_⟩
        · obtain ⟨c', hm, hc'⟩ := hlooked hd hs hb c hc hi
          rcases List.mem_cons.mp hm with rfl | hm
          · exact absurd hc' hleak
          · exact ⟨c', hm, hc'⟩
        · intro _ _ he
          cases he
          exact hsuffix

theorem lower (h : w.Inv) {again : Bool} {leak : Ipv4Addr} (hw : w.watch = .lower again leak)
    (ok : Bool) : (w.step ok).Inv := by
  have hu : w.watch.underway = true := by rw [hw]; rfl
  have hseen := h.seen
  simp only [Seen, hw] at hseen
  simp only [Watcher.step, hw]
  split_ifs with hok hhalf
  · exact h.rest (fun _ => hu) true nofun
  · exact h.go hu nofun nofun
      ⟨hseen.1, fun hb => ⟨(hseen.2 hb).1 hhalf, (hseen.2 hb).2⟩⟩
  · exact h.rest (fun _ => hu) w.blind fun _ _ _ c _ hi =>
      hhalf (hi.1 lowerHalf List.mem_cons_self)

theorem upper (h : w.Inv) {again : Bool} {leak : Ipv4Addr} (hw : w.watch = .upper again leak)
    (ok : Bool) : (w.step ok).Inv := by
  have hu : w.watch.underway = true := by rw [hw]; rfl
  have hseen := h.seen
  simp only [Seen, hw] at hseen
  simp only [Watcher.step, hw]
  split_ifs with hok hhalf hagain
  · exact h.rest (fun _ => hu) true nofun
  · refine h.go hu nofun nofun ⟨hseen.1, fun hb => ?_⟩
    obtain ⟨hlo, hup⟩ := hseen.2 hb
    intro half hm
    rcases List.mem_pair.mp hm with rfl | rfl
    · exact hlo
    · exact hup hhalf
  · exact h.go hu nofun nofun trivial
  · exact h.rest (fun _ => hu) w.blind fun _ _ _ c _ hi =>
      hhalf (hi.1 upperHalf (List.mem_cons_of_mem _ List.mem_cons_self))

theorem step (h : w.Inv) (ok : Bool) : (w.step ok).Inv := by
  cases hw : w.watch with
  | opening =>
      simp only [Watcher.step, hw]
      split
      · exact .look w
      · exact ⟨nofun, fun _ _ _ => trivial, trivial, nofun⟩
  | scan again left => exact h.scan hw ok
  | lower again leak => exact h.lower hw ok
  | upper again leak => exact h.upper hw ok
  | confirm =>
      have hu : w.watch.underway = true := by rw [hw]; rfl
      simp only [Watcher.step, hw]
      split_ifs with hd
      · exact h.rest (fun _ => hu) w.blind fun hd' => absurd (hd'.symm.trans hd) Bool.false_ne_true
      · refine ⟨fun hd _ => h.told hd hu, fun _ _ _ c hc hi => ?_, trivial, fun _ _ he => ?_⟩
        · exact ⟨c, hc, (injected_iff hi.1).mp hi⟩
        · cases he
          exact List.suffix_rfl
  | resting =>
      simp only [Watcher.step, hw]
      split_ifs
      · exact ⟨nofun, fun _ _ _ => trivial, trivial, nofun⟩
      · exact ⟨nofun, fun _ _ _ => trivial, trivial, nofun⟩
      · exact h
  | reading =>
      simp only [Watcher.step, hw]
      split_ifs with hd
      · exact h.rest (fun hd' => absurd (hd'.symm.trans hd) Bool.false_ne_true) w.blind fun hd' =>
          absurd (hd'.symm.trans hd) Bool.false_ne_true
      · exact .look w
  | stopped => rw [Watcher.step, hw]; exact h
  | tripped leak => rw [Watcher.step, hw]; exact h

theorem back_change {table : Routes} {dropped : Bool}
    (hb : (w.change table dropped).back = false) : w.back = false ∧
      ∀ half ∈ [lowerHalf, upperHalf], holdsHalf w.tun table half = true →
        holdsHalf w.tun w.table half = true := by
  simp only [Watcher.change, Bool.or_eq_false_iff, List.any_eq_false, Bool.and_eq_true,
    Bool.not_eq_true', not_and, Bool.not_eq_false] at hb
  exact hb

theorem seen_change (h : w.Inv) (table : Routes) (dropped : Bool) :
    (w.change table dropped).Seen := by
  have hlo : lowerHalf ∈ [lowerHalf, upperHalf] := List.mem_cons_self
  have hup : upperHalf ∈ [lowerHalf, upperHalf] := List.mem_cons_of_mem _ List.mem_cons_self
  obtain ⟨tun, before, messages, shutdown, stop, watch, stale, seen, back, blind⟩ := w
  cases watch with
  | lower again leak =>
      obtain ⟨hc, hkept⟩ := h.seen
      refine ⟨hc, fun hb => ?_⟩
      obtain ⟨hb, hback⟩ := back_change hb
      exact ⟨fun hh => (hkept hb).1 (hback _ hlo hh), fun hh => (hkept hb).2 (hback _ hup hh)⟩
  | upper again leak =>
      obtain ⟨hc, hkept⟩ := h.seen
      refine ⟨hc, fun hb => ?_⟩
      obtain ⟨hb, hback⟩ := back_change hb
      exact ⟨(hkept hb).1, fun hh => (hkept hb).2 (hback _ hup hh)⟩
  | tripped leak =>
      cases leak with
      | none => trivial
      | some leak =>
          obtain ⟨hc, hintact⟩ := h.seen
          exact ⟨hc, fun hb => hintact (back_change hb).1⟩
  | _ => trivial

theorem change (h : w.Inv) (table : Routes) (dropped : Bool) : (w.change table dropped).Inv where
  told _ hw _ := by
    change w.watch.underway = true at hw
    simp only [Watcher.change]
    split
    · next he =>
        rw [he] at hw
        cases hw
    · split_ifs with hm
      · exact hm.2
      · exact Nat.succ_pos _
  looked _ hs := nomatch hs
  seen := h.seen_change table dropped
  left := h.left

theorem next (h : w.Inv) (e : WatchEvent) : (w.next e).Inv := by
  cases e with
  | step ok => exact h.step ok
  | change table dropped => exact h.change table dropped
  | shutdown => exact ⟨nofun, nofun, h.seen, h.left⟩
  | stop => exact ⟨h.told, h.looked, h.seen, h.left⟩

theorem of_reachable (hw : WatchReachable w) : w.Inv := by
  refine Reachable.invariant ?_ ?_ hw
  · rintro _ ⟨tun, table, rfl⟩
    exact .spawned tun table
  · rintro w e _ h rfl
    exact h.next e

end Inv

end Watcher

/-! ### On its own -/

/-- The steps to the verdict, at most, while `c` stays off the tunnel: a look that has passed it comes
to rest first. -/
def Watch.rank (c : Ipv4Addr) : Watch → ℕ
  | .scan again left =>
    if c ∈ left then (if again then 3 else 14) + left.length else 24 + left.length
  | .lower again _ => if again then 2 else 13
  | .upper again _ => if again then 1 else 12
  | .confirm => 11
  | .opening | .reading => 22
  | .resting => 23
  | .stopped | .tripped _ => 0

namespace Watcher

/-- It has found an injected route. -/
def Found (w : Watcher) : Prop := ∃ leak, w.watch = .tripped (some leak)

/-- Where a program of its look has failed, there is a message that makes it look again. -/
def Woken (w : Watcher) : Prop := w.blind = true → 0 < w.messages ∨ w.watch = .reading

/-- What lets the watcher find the route to a canary, when it takes its steps and they succeed. -/
structure Exposed (w : Watcher) (c : Ipv4Addr) : Prop where
  inv : w.Inv
  on : w.shutdown = false ∧ w.stop = false ∧ w.Woken
  running : w.watch ≠ .stopped ∧ w.watch ≠ .tripped none
  mem : c ∈ canaries
  injected : Injected w.tun w.table c

theorem rank_le {w : Watcher} (h : w.Inv) (c : Ipv4Addr) : w.watch.rank c ≤ 31 := by
  cases hw : w.watch with
  | scan again left =>
      have hl : left.length ≤ 7 := (h.left again left hw).length_le
      rw [Watch.rank]
      split_ifs <;> omega
  | lower again leak =>
      cases again
      · exact (by decide : 13 ≤ 31)
      · exact (by decide : 2 ≤ 31)
  | upper again leak =>
      cases again
      · exact (by decide : 12 ≤ 31)
      · exact (by decide : 1 ≤ 31)
  | _ =>
      rw [Watch.rank]
      omega

theorem step_frame (w : Watcher) (ok : Bool) :
    (w.step ok).tun = w.tun ∧ (w.step ok).table = w.table ∧
      (w.step ok).shutdown = w.shutdown ∧ (w.step ok).stop = w.stop := by
  simp only [Watcher.step, Watcher.look]
  split <;> try split_ifs
  all_goals exact ⟨rfl, rfl, rfl, rfl⟩

theorem Woken.change {w : Watcher} (h : w.Woken) (table : Routes) (dropped : Bool) :
    (w.change table dropped).Woken := fun hb => by
  refine (h hb).imp_left fun hm => ?_
  simp only [Watcher.change]
  split <;> try split_ifs
  all_goals omega

theorem step_kept {w : Watcher} (ho : w.watch ≠ .opening) (hr : w.watch ≠ .resting)
    (hm : w.watch ≠ .reading) :
    (w.step true).messages = w.messages ∧ (w.step true).blind = w.blind := by
  unfold Watcher.step
  split <;> try split_ifs
  all_goals first | exact ⟨rfl, rfl⟩ | contradiction

/-- A failed look is made good by the next message. -/
theorem Woken.step {w : Watcher} (h : w.Woken) (hd : w.shutdown = false) : (w.step true).Woken := by
  intro hb
  by_cases ho : w.watch = .opening
  · simp only [Watcher.step, ho, if_true] at hb
    cases hb
  by_cases hm : w.watch = .reading
  · simp only [Watcher.step, hm, hd, Bool.false_eq_true, if_false] at hb
    cases hb
  by_cases hr : w.watch = .resting
  · simp only [Watcher.step, hr] at hb ⊢
    split_ifs at hb ⊢
    · exact .inl ((h hb).resolve_right hm)
    · -- the message that makes it look again is the one it reads
      exact .inr rfl
    · exact (h hb).imp_right fun hw => absurd hw hm
  obtain ⟨hmessages, hblind⟩ := step_kept ho hr hm
  rw [hblind] at hb
  exact .inl (hmessages ▸ (h hb).resolve_right hm)

namespace Exposed

variable {w : Watcher} {c : Ipv4Addr}

theorem leaking (h : w.Exposed c) : leaks w.tun w.table c = true :=
  (injected_iff h.injected.1).mp h.injected

theorem holds (h : w.Exposed c) {half : Prefix} (hm : half ∈ [lowerHalf, upperHalf]) :
    holdsHalf w.tun w.table half = true := h.injected.1 half hm

/-- A watcher that rests has been told. -/
theorem messages_pos (h : w.Exposed c) (hw : w.watch = .resting) : 0 < w.messages := by
  cases hb : w.blind with
  | true => exact (h.on.2.2 hb).resolve_right (by rw [hw]; nofun)
  | false =>
      refine h.inv.told h.on.1 (by rw [hw]; rfl) ?_
      cases hs : w.stale with
      | true => rfl
      | false =>
          have hk := h.inv.looked h.on.1 hs hb
          rw [Looked, hw] at hk
          exact absurd h.injected (hk c h.mem)

theorem rank_scan_step (h : w.Exposed c) {again : Bool} {left : List Ipv4Addr}
    (hw : w.watch = .scan again left) :
    (w.step true).watch.rank c < w.watch.rank c ∧ (w.step true).watch ≠ .stopped ∧
      (w.step true).watch ≠ .tripped none := by
  cases left with
  | nil =>
      have he : (w.step true).watch = .resting := by rw [Watcher.step, hw]
      rw [hw, he]
      exact ⟨(by decide : 23 < 24), nofun, nofun⟩
  | cons canary left =>
      cases hleak : leaks w.tun w.table canary with
      | true =>
          have he : (w.step true).watch = .lower again canary := by
            simp only [Watcher.step, hw, hleak, Bool.not_true, if_true, Bool.false_eq_true,
              if_false]
          rw [hw, he, Watch.rank, Watch.rank, List.length_cons]
          refine ⟨?_, nofun, nofun⟩
          split_ifs <;> omega
      | false =>
          have he : (w.step true).watch = .scan again left := by
            simp only [Watcher.step, hw, hleak, Bool.not_true, Bool.false_eq_true, if_false]
          have hne : c ≠ canary := fun hc => by
            rw [← hc, h.leaking] at hleak
            cases hleak
          have hmem : c ∈ canary :: left ↔ c ∈ left := by rw [List.mem_cons, or_iff_right hne]
          rw [hw, he, Watch.rank, Watch.rank, List.length_cons]
          simp only [hmem]
          refine ⟨?_, nofun, nofun⟩
          split_ifs <;> omega

/-- Its own steps lead to the verdict. -/
theorem rank_step (h : w.Exposed c) (hn : ¬ w.Found) :
    (w.step true).watch.rank c < w.watch.rank c ∧ (w.step true).watch ≠ .stopped ∧
      (w.step true).watch ≠ .tripped none := by
  have hscan (again : Bool) : (Watch.scan again canaries).rank c = (if again then 3 else 14) + 7 :=
    if_pos h.mem
  cases hw : w.watch with
  | opening =>
      have he : (w.step true).watch = .scan false canaries := by rw [Watcher.step, hw]; rfl
      rw [he, hscan]
      exact ⟨(by decide : 21 < 22), nofun, nofun⟩
  | scan again left => exact hw ▸ h.rank_scan_step hw
  | lower again leak =>
      have he : (w.step true).watch = .upper again leak := by
        simp only [Watcher.step, hw, h.holds List.mem_cons_self, Bool.not_true, if_true,
          Bool.false_eq_true, if_false]
      rw [he]
      cases again
      · exact ⟨(by decide : 12 < 13), nofun, nofun⟩
      · exact ⟨(by decide : 1 < 2), nofun, nofun⟩
  | upper again leak =>
      have hup := h.holds (List.mem_cons_of_mem lowerHalf List.mem_cons_self)
      have he : (w.step true).watch = if again then .tripped (some leak) else .confirm := by
        simp only [Watcher.step, hw, hup, Bool.not_true, if_true, Bool.false_eq_true, if_false]
      rw [he]
      cases again
      · exact ⟨(by decide : 11 < 12), nofun, nofun⟩
      · exact ⟨(by decide : 0 < 1), nofun, nofun⟩
  | confirm =>
      have he : (w.step true).watch = .scan true canaries := by
        simp only [Watcher.step, hw, h.on.1, Bool.false_eq_true, if_false]
      rw [he, hscan]
      exact ⟨(by decide : 10 < 11), nofun, nofun⟩
  | resting =>
      have he : (w.step true).watch = .reading := by
        simp only [Watcher.step, hw, h.on.1, h.on.2.1, Bool.or_false, Bool.false_eq_true,
          if_false, h.messages_pos hw, and_self, if_true]
      rw [he]
      exact ⟨(by decide : 22 < 23), nofun, nofun⟩
  | reading =>
      have he : (w.step true).watch = .scan false canaries := by
        simp only [Watcher.step, hw, h.on.1, Bool.false_eq_true, if_false]
        rfl
      rw [he, hscan]
      exact ⟨(by decide : 21 < 22), nofun, nofun⟩
  | stopped => exact absurd hw h.running.1
  | tripped leak =>
      cases leak with
      | none => exact absurd hw h.running.2
      | some leak => exact absurd ⟨leak, hw⟩ hn

theorem step (h : w.Exposed c) (hn : ¬ w.Found) : (w.step true).Exposed c := by
  obtain ⟨ht, htable, hd, hs⟩ := w.step_frame true
  have hrunning := (h.rank_step hn).2
  obtain ⟨hinv, ⟨hd', hs', hb⟩, -, hm, hi⟩ := h
  refine ⟨hinv.step true, ⟨hd.trans hd', hs.trans hs', hb.step hd'⟩, hrunning, hm, ?_⟩
  rw [ht, htable]
  exact hi

theorem change (h : w.Exposed c) {table : Routes} (hi : Injected w.tun table c) (dropped : Bool) :
    (w.change table dropped).Exposed c :=
  ⟨h.inv.change table dropped, ⟨h.on.1, h.on.2.1, h.on.2.2.change table dropped⟩, h.running, h.mem,
    hi⟩

end Exposed

end Watcher

/-- The watcher's own step, or a change of the table that leaves `c` off the tunnel. -/
def WatchEvent.Keeps (tun : Text) (c : Ipv4Addr) : WatchEvent → Prop
  | .step ok => ok = true
  | .change table _ => Injected tun table c
  | .shutdown | .stop => False

def WatchEvent.own : WatchEvent → Bool
  | .step _ => true
  | _ => false

variable {w : Watcher}

theorem Watcher.Found.keeps {tun : Text} {c : Ipv4Addr} (e : WatchEvent) {w' : Watcher}
    (h : w.Found) (he : e.Keeps tun c) (hstep : WatchStep w e w') : w'.Found := by
  obtain ⟨leak, hleak⟩ := h
  cases hstep
  cases e with
  | step ok =>
      have hstay : w.step ok = w := by rw [Watcher.step, hleak]
      exact ⟨leak, (congrArg Watcher.watch hstay).trans hleak⟩
  | change table dropped => exact ⟨leak, hleak⟩
  | shutdown => cases he
  | stop => cases he

theorem Watcher.Exposed.keeps {c : Ipv4Addr} (e : WatchEvent) {w' : Watcher} (h : w.Exposed c)
    (hn : ¬ w.Found) (he : e.Keeps w.tun c) (hstep : WatchStep w e w') :
    (w'.tun = w.tun ∧ w'.Exposed c) ∧ w'.watch.rank c ≤ w.watch.rank c ∧
      (e.own = true → w'.watch.rank c < w.watch.rank c) := by
  cases hstep
  cases e with
  | step ok =>
      cases he
      have hlt := (h.rank_step hn).1
      exact ⟨⟨(w.step_frame true).1, h.step hn⟩, hlt.le, fun _ => hlt⟩
  | change table dropped => exact ⟨⟨rfl, h.change he dropped⟩, le_refl _, nofun⟩
  | shutdown => cases he
  | stop => cases he

/-- A watcher whose table takes one of the canaries elsewhere. -/
def injectedWatcher : Watcher :=
  .spawned (lit "tun0") [⟨lowerHalf, ⟨lit "", lit "tun0"⟩⟩, ⟨upperHalf, ⟨lit "", lit "tun0"⟩⟩,
    ⟨prefixOf ⟨8, 8, 8, 8⟩ 32, ⟨lit "10.0.0.1", lit "eth0"⟩⟩].toFinmap

theorem Watcher.run_foldl (w : Watcher) (es : List WatchEvent) :
    Run WatchStep w es (es.foldl Watcher.next w) := by
  induction es generalizing w with
  | nil => exact .refl w
  | cons e es ih => exact .more rfl (ih (w.next e))

theorem injectedWatcher_reachable (es : List WatchEvent) :
    WatchReachable (es.foldl Watcher.next injectedWatcher) :=
  ⟨_, es, ⟨_, _, rfl⟩, Watcher.run_foldl _ es⟩

/-- However often the table has changed since the session began, and while the watcher looked, a
route that it trips on was more specific than the tunnel's own: the only exception is a half of the
tunnel that comes back between two of its readings. -/
theorem trips_injected (hw : WatchReachable w) {leak : Ipv4Addr}
    (ht : w.watch = .tripped (some leak)) (hb : w.back = false) :
    leak ∈ canaries ∧ Injected w.tun w.seen leak := by
  have hseen := (Watcher.Inv.of_reachable hw).seen
  simp only [Watcher.Seen, ht] at hseen
  obtain ⟨⟨hm, hleak⟩, hintact⟩ := hseen
  exact ⟨hm, (injected_iff (hintact hb)).mpr hleak⟩

theorem trips_injected_watcher : ∃ w, WatchReachable w ∧ w.watch = .tripped (some ⟨8, 8, 8, 8⟩) ∧
    Injected w.tun w.seen ⟨8, 8, 8, 8⟩ := by
  have hw := injectedWatcher_reachable (List.replicate 10 (.step true))
  have ht : ((List.replicate 10 (.step true)).foldl Watcher.next injectedWatcher).watch
      = .tripped (some ⟨8, 8, 8, 8⟩) := by decide +kernel
  exact ⟨_, hw, ht, (trips_injected hw ht (by decide +kernel)).2⟩

/-- The look has failed at the canary, and the table has changed since it began. -/
def blindWatcher : Watcher :=
  [.step true, .change injectedWatcher.table false, .step true, .step false].foldl Watcher.next
    injectedWatcher

end Tunnel.Engine
