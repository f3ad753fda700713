import TestEngine.Settings.Source

/-!
# Settings by name

Profiles and options have six settings. What is true of each of them is said here once, with the
setting as a parameter: where its value stands in settings, how it is read, and what comes of it.

* `Profile.get`, `Options.get` — the value of a setting.
* `Profile.get_of_ofEntries`, `Profile.isSome_of_ofEntries` — a profile that could be read has the
  values that its entries give, and each entry gives one.
-/

namespace TestEngine

namespace Setting

/-- What a setting is set to. -/
def Value : Setting → Type
  | .disableParallelization | .stopOnFail => Bool
  | .maxThreads => ThreadLimit
  | .bus => BusKind
  | .collectionOrderer | .caseOrderer => String

/-- The value that a setting has if nobody sets it. The others are then left to the assembly. -/
def builtIn : (s : Setting) → Option s.Value
  | .stopOnFail => some false
  | .bus => some BusKind.asynchronous
  | .disableParallelization | .maxThreads | .collectionOrderer | .caseOrderer => none

end Setting

/-- The value of a setting in a profile. -/
def Profile.get (p : Profile) : (s : Setting) → Option s.Value
  | .disableParallelization => p.disableParallelization
  | .maxThreads => p.maxThreads
  | .stopOnFail => p.stopOnFail
  | .bus => p.bus
  | .collectionOrderer => p.collectionOrderer
  | .caseOrderer => p.caseOrderer

/-- The value of a setting in the options of a run. -/
def Options.get (o : Options) : (s : Setting) → Option s.Value
  | .disableParallelization => o.disableParallelization
  | .maxThreads => o.maxThreads
  | .stopOnFail => some o.stopOnFail
  | .bus => some o.bus
  | .collectionOrderer => o.collectionOrderer
  | .caseOrderer => o.caseOrderer

/-- The value of a setting that a value of a settings file stands for. -/
def Profile.Reading.value? (r : Profile.Reading) : (s : Setting) → Toml → Option s.Value
  | .disableParallelization | .stopOnFail => r.boolean?
  | .maxThreads => Profile.threads?
  | .bus => r.bus?
  | .collectionOrderer | .caseOrderer => r.text?

theorem Options.eq_of_get_eq {o o' : Options} (h : ∀ s, o.get s = o'.get s) : o = o' := by
  cases o
  cases o'
  have hstop := Option.some.inj (h .stopOnFail)
  have hbus := Option.some.inj (h .bus)
  simp only [Options.mk.injEq]
  exact ⟨h .disableParallelization, h .maxThreads, hstop, hbus, h .collectionOrderer,
    h .caseOrderer⟩

namespace Profile

theorem get_inheriting (p base : Profile) (s : Setting) :
    (p.inheriting base).get s = (p.get s).or (base.get s) := by
  cases s <;> rfl

/-- A profile has nothing to inherit from itself. -/
theorem inheriting_self (p : Profile) : p.inheriting p = p := by
  unfold inheriting
  simp only [Option.or_self]

theorem get_options (p : Profile) (s : Setting) : p.options.get s = (p.get s).or s.builtIn := by
  cases s with
  | stopOnFail | bus => exact Option.or_some.symm
  | _ => exact Option.or_none.symm

/-! ## Reading -/

theorem value?_absent_converting (s : Setting) : converting.value? s .absent = none := by
  cases s <;> rfl

theorem value?_absent_strict (s : Setting) : strict.value? s .absent = none := by
  cases s <;> rfl

variable {r : Reading} {entries : Toml.Entries} {p : Profile} {s : Setting}

/-- A profile that could be read has the values that its entries give. -/
theorem get_of_ofEntries (h : ofEntries r entries = .ok p) (s : Setting) :
    p.get s = (entries.lookup s.key).bind (r.value? s) := by
  unfold ofEntries at h
  split at h
  · cases h
  · cases h
    cases s <;> rfl

theorem isSome_of_fits {v : Toml} (h : fits r s v = true) (hv : v ≠ .absent) :
    (r.value? s v).isSome = true := by
  cases v with
  | absent => exact absurd rfl hv
  | _ => cases s <;> exact h

/-- Each entry of a profile that could be read gives a value, if it is one of a setting. -/
theorem isSome_of_ofEntries (h : ofEntries r entries = .ok p) {v : Toml}
    (hentry : entries.lookup s.key = some v) (hv : v ≠ .absent) :
    (r.value? s v).isSome = true := by
  refine isSome_of_fits ?_ hv
  unfold ofEntries at h
  split at h
  · cases h
  · rename_i hnone
    have hfits := List.findSome?_eq_none_iff.mp hnone _ (Keyed.mem_of_lookup hentry)
    unfold misfit? at hfits
    rw [Setting.ofKey?_key] at hfits
    dsimp only at hfits
    split at hfits
    · assumption
    · cases hfits

end Profile

end TestEngine
