import SourceTally.Proofs.Registry.Load

/-!
# Languages declared in settings

A list of declarations means the same in settings and in a table. Settings turn each declaration
into a profile and register it before they come to the next one, a table turns all of them into
profiles first. So the two may stop at different errors, but when one of them comes to the end both
do, with the same registry: the declarations describe profiles, and these can be registered one
after the other (`Settings.registerDeclared_eq_ok_iff`, `Registry.load_eq_ok_iff`).

When that is so can be said without any registration (`Registry.Views.exists_load_iff`), which also
shows that the built-in languages can be loaded (`Registry.load_builtin`).
-/

namespace SourceTally

/-- Declarations are added one by one if they describe profiles and these can be registered. -/
theorem Settings.registerDeclared_eq_ok_iff {r r' : Registry} {ds : List Declaration} :
    registerDeclared r ds = .ok r' ↔
      ∃ ps, ds.mapM Declaration.profile = .ok ps ∧ r.registerAll ps = (r', .ok ()) := by
  simp only [mapM_eq_ok_iff]
  induction ds generalizing r with
  | nil => simp [registerDeclared, Registry.registerAll]
  | cons d ds ih =>
    simp only [registerDeclared, bind_eq_ok_iff, ih, List.forall₂_cons_left_iff]
    constructor
    · rintro ⟨p, hp, old, hold, ps, hps, hrest⟩
      have hnext : r.register p = ((r.register p).1, .ok old) := Prod.ext rfl hold
      exact ⟨p :: ps, ⟨p, ps, hp, hps, rfl⟩,
        Registry.registerAll_cons_eq_ok_iff.2 ⟨_, old, hnext, hrest⟩⟩
    · rintro ⟨_, ⟨p, ps, hp, hps, rfl⟩, hall⟩
      obtain ⟨next, old, hnext, hrest⟩ := Registry.registerAll_cons_eq_ok_iff.1 hall
      refine ⟨p, hp, old, congrArg Prod.snd hnext, ps, hps, ?_⟩
      rwa [hnext]

namespace Registry

variable {r : Registry} {log ps : List Profile} {ds : List Declaration}

/-- Where profiles are replaced, every valid profile is registered. -/
theorem exists_registerAll_of_replace (replace : r.policy = .replace)
    (valid : ∀ p ∈ ps, p.Valid) : ∃ r', r.registerAll ps = (r', .ok ()) := by
  induction ps generalizing r with
  | nil => exact ⟨r, rfl⟩
  | cons p ps ih =>
    obtain ⟨hvalid, hvalids⟩ := List.forall_mem_cons.1 valid
    have hregister : ∃ next old, r.register p = (next, .ok old) := by
      simp only [register_eq_ok_iff]
      cases hlookup : r.idIndex.lookup p.key with
      | none => exact ⟨_, _, hvalid, .inl ⟨rfl, rfl, rfl⟩⟩
      | some position => exact ⟨_, _, hvalid, .inr ⟨position, rfl, replace, rfl, rfl⟩⟩
    obtain ⟨next, old, hnext⟩ := hregister
    obtain ⟨r', hr'⟩ := ih ((policy_of_register hnext).trans replace) hvalids
    exact ⟨r', registerAll_cons_eq_ok_iff.2 ⟨next, old, hnext, hr'⟩⟩

/-- Valid profiles are registered if they may replace others, or if no id occurs twice. -/
theorem Views.exists_registerAll_iff (h : r.Views log) (valid : ∀ p ∈ ps, p.Valid) :
    (∃ r', r.registerAll ps = (r', .ok ())) ↔
      r.policy = .replace ∨ ((r.profiles ++ ps).map Profile.key).Nodup := by
  cases hpolicy : r.policy with
  | replace => exact iff_of_true (exists_registerAll_of_replace hpolicy valid) (.inl rfl)
  | reject =>
    simp only [h.registerAll_eq_ok_iff hpolicy]
    constructor
    · rintro ⟨r', -, hdistinct, -⟩
      exact .inr hdistinct
    · rintro (hreplace | hdistinct)
      · cases hreplace
      · exact ⟨_, valid, hdistinct, rfl⟩

/-- Declarations are loaded if each of them describes a profile, and if these may replace others or
no id occurs twice, letter case aside. The policy may be another one than before. -/
theorem Views.exists_load_iff (h : r.Views log) (policy : DuplicatePolicy) :
    (∃ r', Registry.load { r with policy := policy } ds = (r', .ok ())) ↔
      (∀ d ∈ ds, ∃ p, d.profile = .ok p) ∧ (policy = .replace ∨
        ((r.profiles.map Profile.id ++ ds.map Declaration.id).map Text.lower).Nodup) := by
  have hviews := h.withPolicy policy
  have hkeys : ∀ {ps : List Profile}, ds.mapM Declaration.profile = .ok ps →
      (r.profiles ++ ps).map Profile.key =
        (r.profiles.map Profile.id ++ ds.map Declaration.id).map Text.lower := by
    intro ps hps
    rw [← (Declaration.valid_of_mapM hps).2, ← List.map_append, List.map_map]
    rfl
  simp only [load_eq_ok_iff, ← exists_mapM_eq_ok_iff]
  constructor
  · rintro ⟨r', ps, hps, hall⟩
    refine ⟨⟨ps, hps⟩, ?_⟩
    rw [← hkeys hps]
    exact (hviews.exists_registerAll_iff (Declaration.valid_of_mapM hps).1).1 ⟨r', hall⟩
  · rintro ⟨⟨ps, hps⟩, hfree⟩
    rw [← hkeys hps] at hfree
    obtain ⟨r', hall⟩ := (hviews.exists_registerAll_iff (Declaration.valid_of_mapM hps).1).2 hfree
    exact ⟨r', ps, hps, hall⟩

/-- The built-in languages are loaded without an error. -/
theorem load_builtin : load {} Profile.builtin = (builtin, .ok ()) := by
  have hsound : ∀ d ∈ Profile.builtin, ∃ p, d.profile = .ok p := by
    have hall : Profile.builtin.all (·.profile.isOk) = true := by decide +kernel
    intro d hd
    have hd := List.all_eq_true.1 hall d hd
    cases hprofile : d.profile with
    | ok p => exact ⟨p, rfl⟩
    | error e =>
      rw [hprofile] at hd
      cases hd
  have hdistinct : ((Profile.builtin.map Declaration.id).map Text.lower).Nodup := by decide +kernel
  obtain ⟨r, hr⟩ := (views_nil.exists_load_iff .reject).2 ⟨hsound, .inr hdistinct⟩
  rw [builtin, hr]

end Registry

/-- A list of declarations means the same in settings and in a table. Settings come to a registry
exactly if the same declarations can be loaded on top of the built-in languages under the same
policy, and the two registries are one and the same. They do so exactly if every declaration
describes a profile and, unless these may replace others, no id occurs twice among the built-in
languages and the declarations, letter case aside. -/
theorem Settings.registry_of_declarations (s : Settings) :
    Registry.load {} Profile.builtin = (Registry.builtin, .ok ()) ∧
    (∀ r, s.registry = .ok r ↔
      Registry.load { Registry.builtin with policy := s.policy } s.languages = (r, .ok ())) ∧
    (∀ r, s.registry = .ok r → r.policy = s.policy) ∧
    ((∃ r, s.registry = .ok r) ↔
      (∀ d ∈ s.languages, ∃ p, d.profile = .ok p) ∧ (s.replaceBuiltin = true ∨
        ((Registry.builtin.profiles.map Profile.id ++ s.languages.map Declaration.id).map
          Text.lower).Nodup)) := by
  have hsame : ∀ r, s.registry = .ok r ↔
      Registry.load { Registry.builtin with policy := s.policy } s.languages = (r, .ok ()) :=
    fun r => registerDeclared_eq_ok_iff.trans Registry.load_eq_ok_iff.symm
  have hpolicy : s.policy = .replace ↔ s.replaceBuiltin = true := by
    simp [policy]
  refine ⟨Registry.load_builtin, hsame, fun r hr => ?_, ?_⟩
  · obtain ⟨ps, -, hall⟩ := registerDeclared_eq_ok_iff.1 hr
    exact Registry.policy_of_registerAll hall
  · obtain ⟨log, hviews⟩ := Registry.built_builtin.views
    simp only [hsame, ← hpolicy]
    exact hviews.exists_load_iff s.policy

end SourceTally
