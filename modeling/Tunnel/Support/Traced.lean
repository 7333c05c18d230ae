import Tunnel.Support.Checked

/-!
# Support — Computations with a trace

Computations that do things to the world, in order, and that may fail with an error of their own or
panic (`Traced`).  What is done before a failure stays done.

* `Traced.bind_eq_ok`, `Traced.ends_bind`: the result of a sequence.
* `Ordered`: every effect of a trace is allowed by those before it; `ordered_append`,
  `ordered_split`.
* `Traced.Keeps.bind`: a sequence keeps to an order when its parts do, each after those before it.
-/

namespace Support

/-- Every effect is allowed by the effects before it. -/
def Ordered {E : Type} (allowed : List E → E → Prop) : List E → List E → Prop
  | _, [] => True
  | before, e :: es => allowed before e ∧ Ordered allowed (before ++ [e]) es

section Ordered

variable {E : Type} {allowed : List E → E → Prop} {before : List E}

theorem ordered_append {xs ys : List E} : Ordered allowed before (xs ++ ys) ↔
    Ordered allowed before xs ∧ Ordered allowed (before ++ xs) ys := by
  induction xs generalizing before with
  | nil => simp [Ordered]
  | cons x xs ih =>
      rw [List.cons_append, Ordered, Ordered, ih, and_assoc, List.append_assoc]
      rfl

/-- An effect of an ordered trace, and what came before it. -/
theorem ordered_split {pre post : List E} {e : E} (h : Ordered allowed before (pre ++ e :: post)) :
    allowed (before ++ pre) e := (ordered_append.mp h).2.1

end Ordered

/-- What is done, and what comes of it. -/
structure Traced (E ε α : Type) where
  trace : List E
  result : Checked (Except ε α)

namespace Traced

variable {E ε α β : Type}

/-- What follows a failure is not done. -/
def andThen (x : Traced E ε α) (f : α → Traced E ε β) : Traced E ε β :=
  match x.result with
  | .ok (.ok a) => ⟨x.trace ++ (f a).trace, (f a).result⟩
  | .ok (.error e) => ⟨x.trace, .ok (.error e)⟩
  | .error p => ⟨x.trace, .error p⟩

instance : Monad (Traced E ε) where
  pure a := ⟨[], .ok (.ok a)⟩
  bind := andThen

def emit (e : E) : Traced E ε Unit := ⟨[e], .ok (.ok ())⟩

/-- Nothing done. -/
def ofChecked (x : Checked (Except ε α)) : Traced E ε α := ⟨[], x⟩

def ofExcept (x : Except ε α) : Traced E ε α := ofChecked (.ok x)

/-- The error of a computation, as a value to go on with. -/
def caught (x : Traced E ε α) : Traced E ε (Except ε α) := ⟨x.trace, x.result.map .ok⟩

@[simp] theorem pure_trace (a : α) : (pure a : Traced E ε α).trace = [] := rfl
@[simp] theorem pure_result (a : α) : (pure a : Traced E ε α).result = .ok (.ok a) := rfl
@[simp] theorem emit_trace (e : E) : (emit e : Traced E ε Unit).trace = [e] := rfl
@[simp] theorem emit_result (e : E) : (emit e : Traced E ε Unit).result = .ok (.ok ()) := rfl
@[simp] theorem ofChecked_trace (x : Checked (Except ε α)) :
    (ofChecked x : Traced E ε α).trace = [] := rfl
@[simp] theorem ofChecked_result (x : Checked (Except ε α)) :
    (ofChecked x : Traced E ε α).result = x := rfl
@[simp] theorem ofExcept_trace (x : Except ε α) : (ofExcept x : Traced E ε α).trace = [] := rfl
@[simp] theorem ofExcept_result (x : Except ε α) :
    (ofExcept x : Traced E ε α).result = .ok x := rfl
@[simp] theorem caught_trace (x : Traced E ε α) : x.caught.trace = x.trace := rfl

theorem bind_of_ok {x : Traced E ε α} {f : α → Traced E ε β} {a : α}
    (h : x.result = .ok (.ok a)) : x >>= f = ⟨x.trace ++ (f a).trace, (f a).result⟩ := by
  change andThen x f = _
  rw [andThen, h]

/-- A part that failed is the end. -/
theorem bind_of_not_ok {x : Traced E ε α} {f : α → Traced E ε β}
    (h : ∀ a, x.result ≠ .ok (.ok a)) : (x >>= f).trace = x.trace ∧
      (∀ b, (x >>= f).result ≠ .ok (.ok b)) ∧ (Returns x.result → Returns (x >>= f).result) := by
  change (andThen x f).trace = _ ∧ (∀ b, (andThen x f).result ≠ _) ∧
    (_ → Returns (andThen x f).result)
  rw [andThen]
  split
  · next a ha => exact absurd ha (h a)
  · next e he => exact ⟨rfl, nofun, fun _ => .ok _⟩
  · next p hp =>
      refine ⟨rfl, nofun, fun hr => ?_⟩
      obtain ⟨r, hr⟩ := hr
      rw [hp] at hr
      cases hr

/-- A sequence succeeds when its parts do. -/
theorem bind_eq_ok {x : Traced E ε α} {f : α → Traced E ε β} {b : β} :
    (x >>= f).result = .ok (.ok b) ↔
      ∃ a, x.result = .ok (.ok a) ∧ (f a).result = .ok (.ok b) := by
  constructor
  · intro h
    by_cases hx : ∃ a, x.result = .ok (.ok a)
    · obtain ⟨a, ha⟩ := hx
      rw [bind_of_ok ha] at h
      exact ⟨a, ha, h⟩
    · exact absurd h ((bind_of_not_ok (f := f) (not_exists.mp hx)).2.1 b)
  · rintro ⟨a, ha, hb⟩
    rw [bind_of_ok ha]
    exact hb

/-- What the first part did is done. -/
theorem mem_bind_left {x : Traced E ε α} {f : α → Traced E ε β} {e : E} (h : e ∈ x.trace) :
    e ∈ (x >>= f).trace := by
  by_cases hx : ∃ a, x.result = .ok (.ok a)
  · obtain ⟨a, ha⟩ := hx
    rw [bind_of_ok ha]
    exact List.mem_append_left _ h
  · rwa [(bind_of_not_ok (not_exists.mp hx)).1]

theorem mem_bind_right {x : Traced E ε α} {f : α → Traced E ε β} {e : E} {a : α}
    (hx : x.result = .ok (.ok a)) (h : e ∈ (f a).trace) : e ∈ (x >>= f).trace := by
  rw [bind_of_ok hx]
  exact List.mem_append_right _ h

theorem caught_eq_ok {x : Traced E ε α} {r : Except ε α} :
    x.caught.result = .ok (.ok r) ↔ x.result = .ok r := by
  unfold caught
  cases x.result with
  | error p => simp [Except.map]
  | ok a => simp [Except.map]

/-! ### Ends -/

/-- The computation comes to an end, and does not panic. -/
def Ends (x : Traced E ε α) : Prop := Returns x.result

theorem ends_pure (a : α) : (pure a : Traced E ε α).Ends := .ok _

theorem ends_emit (e : E) : (emit e : Traced E ε Unit).Ends := .ok _

theorem ends_ofExcept (x : Except ε α) : (ofExcept x : Traced E ε α).Ends := .ok _

theorem ends_bind {x : Traced E ε α} {f : α → Traced E ε β} (hx : x.Ends)
    (hf : ∀ a, x.result = .ok (.ok a) → (f a).Ends) : (x >>= f).Ends := by
  by_cases ha : ∃ a, x.result = .ok (.ok a)
  · obtain ⟨a, ha⟩ := ha
    rw [Ends, bind_of_ok ha]
    exact hf a ha
  · exact (bind_of_not_ok (not_exists.mp ha)).2.2 hx

/-- The computation comes to an end without an error. -/
def Succeeds (x : Traced E ε α) : Prop := ∃ a, x.result = .ok (.ok a)

theorem succeeds_pure (a : α) : (pure a : Traced E ε α).Succeeds := ⟨a, rfl⟩

theorem succeeds_caught {x : Traced E ε α} (hx : x.Ends) : x.caught.Succeeds := by
  obtain ⟨r, hr⟩ := hx
  exact ⟨r, caught_eq_ok.mpr hr⟩

theorem succeeds_bind {x : Traced E ε α} {f : α → Traced E ε β} (hx : x.Succeeds)
    (hf : ∀ a, (f a).Succeeds) : (x >>= f).Succeeds := by
  obtain ⟨a, ha⟩ := hx
  obtain ⟨b, hb⟩ := hf a
  exact ⟨b, bind_eq_ok.mpr ⟨a, ha, hb⟩⟩

theorem Succeeds.ends {x : Traced E ε α} (hx : x.Succeeds) : x.Ends := by
  obtain ⟨a, ha⟩ := hx
  exact ⟨_, ha⟩

/-! ### The order of effects -/

/-- After these effects, the computation keeps to the order. -/
def Keeps (allowed : List E → E → Prop) (before : List E) (x : Traced E ε α) : Prop :=
  Ordered allowed before x.trace

namespace Keeps

variable {allowed : List E → E → Prop} {before : List E}

theorem silent {x : Traced E ε α} (h : x.trace = []) : Keeps allowed before x := by
  rw [Keeps, h]
  trivial

theorem emit {e : E} (h : allowed before e) : Keeps allowed before (emit e : Traced E ε Unit) :=
  ⟨h, trivial⟩

theorem bind {x : Traced E ε α} {f : α → Traced E ε β} (hx : Keeps allowed before x)
    (hf : ∀ a, x.result = .ok (.ok a) → Keeps allowed (before ++ x.trace) (f a)) :
    Keeps allowed before (x >>= f) := by
  by_cases ha : ∃ a, x.result = .ok (.ok a)
  · obtain ⟨a, ha⟩ := ha
    rw [Keeps, bind_of_ok ha]
    exact ordered_append.mpr ⟨hx, hf a ha⟩
  · rw [Keeps, (bind_of_not_ok (not_exists.mp ha)).1]
    exact hx

/-- A part that does nothing. -/
theorem bind_silent {x : Traced E ε α} {f : α → Traced E ε β} (hx : x.trace = [])
    (hf : ∀ a, Keeps allowed before (f a)) : Keeps allowed before (x >>= f) :=
  bind (silent hx) fun a _ => by
    rw [hx, List.append_nil]
    exact hf a

theorem caught {x : Traced E ε α} (h : Keeps allowed before x) : Keeps allowed before x.caught := h

end Keeps

end Traced

end Support
