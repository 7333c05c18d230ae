import Tunnel.Support.Table

/-!
# Support — Owned resources

A table of owners, each holding a handle into a table of resources.  `Pool handle kind owners res`:
the owners' handles name distinct resources of kind `kind`, and there are no others of that kind.
Several kinds of owner may share one table of resources.

* `Pool.acquire`, `Pool.release`, `Pool.update`: an owner comes with a fresh resource, leaves with
  its resource, or changes and keeps it.
* `Pool.frame_insert`, `Pool.frame_erase`: a change to resources of another kind.
-/

namespace Support

variable {K H C S : Type} [DecidableEq K] [DecidableEq H]

structure Pool (handle : C → H) (kind : S → Prop) (owners : Table K C) (res : Table H S) :
    Prop where
  /-- Every owner's handle names a resource of the kind. -/
  held : ∀ key c, owners.lookup key = some c → ∃ s, res.lookup (handle c) = some s ∧ kind s
  /-- Two owners hold two handles. -/
  inj : ∀ key key' c c', owners.lookup key = some c → owners.lookup key' = some c' →
    handle c = handle c' → key = key'
  /-- Every resource of the kind is held. -/
  owned : ∀ h s, res.lookup h = some s → kind s → ∃ key c, owners.lookup key = some c ∧ handle c = h

namespace Pool

variable {handle : C → H} {kind : S → Prop} {owners : Table K C} {res : Table H S}

theorem empty : Pool handle kind (∅ : Table K C) (∅ : Table H S) :=
  ⟨nofun, nofun, nofun⟩

theorem handle_ne {key key' : K} {c c' : C} (h : Pool handle kind owners res)
    (hc : owners.lookup key = some c) (hc' : owners.lookup key' = some c') (hne : key ≠ key') :
    handle c ≠ handle c' := fun he => hne (h.inj key key' c c' hc hc' he)

theorem acquire {key : K} {c : C} {s : S} (h : Pool handle kind owners res)
    (hh : res.lookup (handle c) = none) (hs : kind s) (hk : owners.lookup key = none) :
    Pool handle kind (owners.insert key c) (res.insert (handle c) s) := by
  have hne : ∀ key' c', owners.lookup key' = some c' → handle c' ≠ handle c := by
    intro key' c' hc e
    obtain ⟨s', hs', -⟩ := h.held key' c' hc
    rw [e, hh] at hs'
    cases hs'
  refine ⟨fun key' c' hc => ?_, fun key₁ key₂ c₁ c₂ h₁ h₂ he => ?_, fun j s' hs' hk' => ?_⟩
  · rw [Finmap.lookup_insert_eq] at hc
    split at hc
    · cases hc
      exact ⟨s, Finmap.lookup_insert _, hs⟩
    · rw [Finmap.lookup_insert_of_ne _ (hne key' c' hc)]
      exact h.held key' c' hc
  · rw [Finmap.lookup_insert_eq] at h₁ h₂
    split at h₁ <;> split at h₂
    · next e₁ e₂ => rw [e₁, e₂]
    · cases h₁
      exact absurd he.symm (hne _ _ h₂)
    · cases h₂
      exact absurd he (hne _ _ h₁)
    · exact h.inj _ _ _ _ h₁ h₂ he
  · rw [Finmap.lookup_insert_eq] at hs'
    split at hs'
    · next e => exact ⟨key, c, Finmap.lookup_insert _, e.symm⟩
    · obtain ⟨key', c', hc, he⟩ := h.owned j s' hs' hk'
      have hkey : key' ≠ key := by
        intro e
        rw [e, hk] at hc
        cases hc
      exact ⟨key', c', by rw [Finmap.lookup_insert_of_ne _ hkey]; exact hc, he⟩

theorem release {key : K} {c : C} (h : Pool handle kind owners res)
    (hc : owners.lookup key = some c) :
    Pool handle kind (owners.erase key) (res.erase (handle c)) := by
  refine ⟨fun key' c' hc' => ?_, fun key₁ key₂ c₁ c₂ h₁ h₂ he => ?_, fun j s hs hk => ?_⟩
  · rw [Finmap.lookup_erase_eq] at hc'
    split at hc'
    · cases hc'
    · next hne =>
        rw [Finmap.lookup_erase_eq, if_neg fun e => hne (h.inj _ _ _ _ hc' hc e)]
        exact h.held key' c' hc'
  · rw [Finmap.lookup_erase_eq] at h₁ h₂
    split at h₁ <;> split at h₂
    · cases h₁
    · cases h₁
    · cases h₂
    · exact h.inj _ _ _ _ h₁ h₂ he
  · rw [Finmap.lookup_erase_eq] at hs
    split at hs
    · cases hs
    · next hne =>
        obtain ⟨key', c', hc', he⟩ := h.owned j s hs hk
        have hkey : key' ≠ key := by
          intro e
          rw [e, hc] at hc'
          cases hc'
          exact hne he.symm
        exact ⟨key', c', by rw [Finmap.lookup_erase_eq, if_neg hkey]; exact hc', he⟩

theorem update {key : K} {c c' : C} {s : S} (h : Pool handle kind owners res)
    (hc : owners.lookup key = some c) (hh : handle c' = handle c) (hs : kind s) :
    Pool handle kind (owners.insert key c') (res.insert (handle c) s) := by
  have h' : Pool handle kind ((owners.erase key).insert key c')
      ((res.erase (handle c)).insert (handle c') s) :=
    (h.release hc).acquire (by rw [hh, Finmap.lookup_erase_eq, if_pos rfl]) hs
      (by rw [Finmap.lookup_erase_eq, if_pos rfl])
  rwa [Finmap.insert_erase, hh, Finmap.insert_erase] at h'

/-- A held resource changes under its owner. -/
theorem poll {j : H} {s s' : S} (h : Pool handle kind owners res) (hj : res.lookup j = some s)
    (hs : kind s) (hs' : kind s') : Pool handle kind owners (res.insert j s') := by
  obtain ⟨key, c, hc, rfl⟩ := h.owned j s hj hs
  have h' := h.update hc rfl hs'
  rwa [Finmap.insert_lookup hc] at h'

/-- An owner changes and leaves its resource alone. -/
theorem set {key : K} {c c' : C} (h : Pool handle kind owners res)
    (hc : owners.lookup key = some c) (hh : handle c' = handle c) :
    Pool handle kind (owners.insert key c') res := by
  obtain ⟨s, hs, hk⟩ := h.held key c hc
  have h' := h.update (s := s) hc hh hk
  rwa [Finmap.insert_lookup hs] at h'

theorem frame_erase {j : H} (h : Pool handle kind owners res)
    (hj : ∀ s, res.lookup j = some s → ¬ kind s) : Pool handle kind owners (res.erase j) := by
  refine ⟨fun key c hc => ?_, h.inj, fun i s hs hk => ?_⟩
  · obtain ⟨s, hs, hk⟩ := h.held key c hc
    have hne : handle c ≠ j := fun e => hj s (e ▸ hs) hk
    exact ⟨s, by rw [Finmap.lookup_erase_eq, if_neg hne]; exact hs, hk⟩
  · rw [Finmap.lookup_erase_eq] at hs
    split at hs
    · cases hs
    · exact h.owned i s hs hk

theorem frame_insert {j : H} {s : S} (h : Pool handle kind owners res)
    (hj : ∀ s, res.lookup j = some s → ¬ kind s) (hs : ¬ kind s) :
    Pool handle kind owners (res.insert j s) := by
  have h' := h.frame_erase hj
  rw [← Finmap.insert_erase]
  refine ⟨fun key c hc => ?_, h.inj, fun i s' hs' hk => ?_⟩
  · obtain ⟨s', hs', hk⟩ := h'.held key c hc
    have hne : handle c ≠ j := by
      intro e
      rw [Finmap.lookup_erase_eq, if_pos e] at hs'
      cases hs'
    exact ⟨s', by rw [Finmap.lookup_insert_eq, if_neg hne]; exact hs', hk⟩
  · rw [Finmap.lookup_insert_eq] at hs'
    split at hs'
    · cases hs'
      exact absurd hk hs
    · exact h'.owned i s' hs' hk

end Pool

end Support
