import SourceTally.Proofs.Profile.RoundTrip
import SourceTally.Proofs.Registry.History

/-!
# Registrations that fail

What a registry is after a call that failed. A registration that fails changes nothing
(`Registry.Views.register_eq_error_iff` says when one does). Profiles that are registered one after
the other stop at the first one that is refused, and those before it stay
(`Registry.registerAll_eq_error_iff`). Loading a table reads the table, turns its declarations into
profiles and registers these, in this order, so only the last part can leave something behind. By
then every profile is known to be valid (`Declaration.valid_of_profile`), and all that can be
refused is an id that is taken. `Registry.after_failure` puts this together.

Under the policy that refuses taken ids, profiles are registered exactly if no id is taken, and then
they stand behind those of the registry (`Registry.Views.registerAll_eq_ok_iff`).
-/

namespace SourceTally

/-! ## Declarations -/

namespace Declaration

variable {d : Declaration} {p : Profile} {e : Error}

theorem profile_eq_error_iff :
    d.profile = .error e ↔ ∃ fault, d.toProfile = .error fault ∧ e = .invalidProfile d.id fault := by
  unfold profile
  cases d.toProfile with
  | ok q => simp
  | error fault => simp [eq_comm]

/-- A declared profile is valid, and has the id of its declaration. -/
theorem valid_of_profile (h : d.profile = .ok p) : p.Valid ∧ p.id = d.id := by
  unfold profile at h
  split at h
  · next q hq =>
    cases h
    obtain ⟨hdescribes, hvalid⟩ := toProfile_eq_ok_iff.1 hq
    exact ⟨hvalid, hdescribes.id⟩
  · cases h

/-- Declared profiles are valid, and have the ids of their declarations. -/
theorem valid_of_mapM {ds : List Declaration} {ps : List Profile}
    (h : ds.mapM Declaration.profile = .ok ps) :
    (∀ p ∈ ps, p.Valid) ∧ ps.map Profile.id = ds.map Declaration.id := by
  induction mapM_eq_ok_iff.1 h with
  | nil => exact ⟨fun _ hp => (List.not_mem_nil hp).elim, rfl⟩
  | cons hd hds ih =>
    obtain ⟨hvalid, hid⟩ := valid_of_profile hd
    obtain ⟨hvalids, hids⟩ := ih (mapM_eq_ok_iff.2 hds)
    exact ⟨List.forall_mem_cons.2 ⟨hvalid, hvalids⟩, congrArg₂ List.cons hid hids⟩

end Declaration

/-! ## Taken ids -/

/-- The id of the profile is, letter case aside, that of one of the profiles. -/
def Profile.TakenBy (p : Profile) (profiles : List Profile) : Prop :=
  p.key ∈ profiles.map Profile.key

/-- Behind `before`, `p` is the first profile whose id is taken by those that are present or by an
earlier one. -/
structure FirstTaken (present before : List Profile) (p : Profile) : Prop where
  taken : p.TakenBy (present ++ before)
  free : ∀ earlier q later, before = earlier ++ q :: later → ¬ q.TakenBy (present ++ earlier)

/-- Where the ids of those present differ, all ids differ exactly if none is taken when its turn
comes. -/
theorem nodup_append_iff {present ps : List Profile} (distinct : (present.map Profile.key).Nodup) :
    ((present ++ ps).map Profile.key).Nodup ↔
      ∀ earlier q later, ps = earlier ++ q :: later → ¬ q.TakenBy (present ++ earlier) := by
  constructor
  · rintro h earlier q later rfl htaken
    rw [← List.append_assoc, List.map_append, List.nodup_append] at h
    exact h.2.2 _ htaken _ List.mem_cons_self rfl
  · intro hfree
    induction ps using List.reverseRecOn with
    | nil => rwa [List.append_nil]
    | append_singleton ps p ih =>
      rw [← List.append_assoc, List.map_append, List.map_singleton, ← List.concat_eq_append]
      refine List.Nodup.concat (hfree ps p [] rfl) (ih fun earlier q later hps => ?_)
      exact hfree earlier q (later ++ [p]) (by rw [hps, List.append_assoc, List.cons_append])

namespace Registry

variable {r r' : Registry} {log ps : List Profile} {p : Profile} {old : Option Profile} {e : Error}

/-! ## One registration -/

/-- An id is taken if the index knows it. -/
theorem Views.lookup_idIndex_isSome_iff (h : r.Views log) :
    (∃ position, r.idIndex.lookup p.key = some position) ↔ p.TakenBy r.profiles := by
  simp only [h.lookup_idIndex]
  constructor
  · rintro ⟨position, q, hq, hkey⟩
    exact List.mem_map.2 ⟨q, List.mem_of_getElem? hq, hkey⟩
  · intro htaken
    obtain ⟨q, hq, hkey⟩ := List.mem_map.1 htaken
    obtain ⟨position, hposition⟩ := List.mem_iff_getElem?.1 hq
    exact ⟨position, q, hposition, hkey⟩

/-- A registration fails if the profile breaks a rule, or else if its id is taken and the policy
refuses it. -/
theorem Views.register_eq_error_iff (h : r.Views log) :
    r.register p = (r', .error e) ↔ r' = r ∧
      ((∃ fault, p.fault? = some fault ∧ e = .invalidProfile p.id fault) ∨
        p.Valid ∧ r.policy = .reject ∧ p.TakenBy r.profiles ∧ e = .duplicateProfile p.id) := by
  rw [← h.lookup_idIndex_isSome_iff]
  unfold Registry.register Profile.Valid
  cases p.fault? with
  | some fault => simp [eq_comm]
  | none =>
    cases r.idIndex.lookup p.key with
    | none => simp
    | some position => cases r.policy <;> simp [eq_comm]

/-- Where taken ids are refused, a profile is registered if it is valid and its id is not taken, and
goes to the end. -/
theorem Views.register_eq_ok_iff_of_reject (h : r.Views log) (reject : r.policy = .reject) :
    r.register p = (r', .ok old) ↔ p.Valid ∧ ¬ p.TakenBy r.profiles ∧
      r' = r.withProfiles (r.profiles ++ [p]) ∧ old = none := by
  rw [register_eq_ok_iff, ← h.lookup_idIndex_isSome_iff, reject]
  cases r.idIndex.lookup p.key with
  | none => simp
  | some position => simp

theorem policy_of_register (h : r.register p = (r', .ok old)) : r'.policy = r.policy := by
  obtain ⟨-, ⟨-, rfl, -⟩ | ⟨position, -, -, rfl, -⟩⟩ := register_eq_ok_iff.1 h
  · rfl
  · rfl

/-! ## Several registrations -/

/-- The first profile is registered, and then the others. -/
theorem registerAll_cons_eq_ok_iff :
    r.registerAll (p :: ps) = (r', .ok ()) ↔
      ∃ next old, r.register p = (next, .ok old) ∧ next.registerAll ps = (r', .ok ()) := by
  rw [registerAll]
  rcases r.register p with ⟨next, e | old⟩
  · simp
  · simp

/-- The first profile is refused, or it is registered and one of the others is refused. -/
theorem registerAll_cons_eq_error_iff :
    r.registerAll (p :: ps) = (r', .error e) ↔ r.register p = (r', .error e) ∨
      ∃ next old, r.register p = (next, .ok old) ∧ next.registerAll ps = (r', .error e) := by
  rw [registerAll]
  rcases r.register p with ⟨next, e | old⟩
  · simp
  · simp

/-- Registering profiles stops at the first one that is refused. Those before it stay. -/
theorem registerAll_eq_error_iff :
    r.registerAll ps = (r', .error e) ↔ ∃ before p after, ps = before ++ p :: after ∧
      r.registerAll before = (r', .ok ()) ∧ r'.register p = (r', .error e) := by
  induction ps generalizing r with
  | nil => simp [registerAll]
  | cons first ps ih =>
    rw [registerAll_cons_eq_error_iff, exists_split_cons_iff]
    refine or_congr ?_ ?_
    · simp only [registerAll, Prod.mk.injEq, and_true]
      constructor
      · intro h
        obtain rfl := eq_of_register_eq_error h
        exact ⟨rfl, h⟩
      · rintro ⟨rfl, h⟩
        exact h
    · simp only [ih, registerAll_cons_eq_ok_iff]
      constructor
      · rintro ⟨next, old, hfirst, before, p, after, rfl, hbefore, hp⟩
        exact ⟨before, p, after, rfl, ⟨next, old, hfirst, hbefore⟩, hp⟩
      · rintro ⟨before, p, after, rfl, ⟨next, old, hfirst, hbefore⟩, hp⟩
        exact ⟨next, old, hfirst, before, p, after, rfl, hbefore, hp⟩

theorem policy_of_registerAll (h : r.registerAll ps = (r', .ok ())) : r'.policy = r.policy := by
  induction ps generalizing r with
  | nil =>
    cases h
    rfl
  | cons p ps ih =>
    obtain ⟨next, old, hp, hps⟩ := registerAll_cons_eq_ok_iff.1 h
    rw [ih hps, policy_of_register hp]

/-- Where taken ids are refused, profiles are registered if they are valid and none of the ids
occurs twice, and go to the end in their order. -/
theorem Views.registerAll_eq_ok_iff (h : r.Views log) (reject : r.policy = .reject) :
    r.registerAll ps = (r', .ok ()) ↔ (∀ p ∈ ps, p.Valid) ∧
      ((r.profiles ++ ps).map Profile.key).Nodup ∧ r' = r.withProfiles (r.profiles ++ ps) := by
  induction ps generalizing r log with
  | nil =>
    rw [List.append_nil, h.indexed]
    simp [Registry.registerAll, h.distinct, eq_comm]
  | cons p ps ih =>
    rw [registerAll_cons_eq_ok_iff, List.forall_mem_cons]
    constructor
    · rintro ⟨next, old, hp, hps⟩
      have hviews := (h.register hp).1
      have hpolicy := policy_of_register hp
      obtain ⟨hvalid, -, rfl, -⟩ := (h.register_eq_ok_iff_of_reject reject).1 hp
      obtain ⟨hvalids, hdistinct, rfl⟩ := (ih hviews (hpolicy.trans reject)).1 hps
      rw [List.append_cons]
      exact ⟨⟨hvalid, hvalids⟩, hdistinct, rfl⟩
    · rintro ⟨⟨hvalid, hvalids⟩, hdistinct, rfl⟩
      have hfree : ¬ p.TakenBy r.profiles := by
        have := (nodup_append_iff h.distinct).1 hdistinct [] p ps rfl
        rwa [List.append_nil] at this
      have hp := (h.register_eq_ok_iff_of_reject reject).2 ⟨hvalid, hfree, rfl, rfl⟩
      rw [List.append_cons] at hdistinct
      refine ⟨_, _, hp, (ih (h.register hp).1 reject).2 ⟨hvalids, hdistinct, ?_⟩⟩
      rw [List.append_cons]
      rfl

/-- The first profile whose id is taken is refused, and those before it are registered. -/
theorem Views.registerAll_eq_duplicate_iff (h : r.Views log) (valid : ∀ p ∈ ps, p.Valid)
    {id : String} :
    r.registerAll ps = (r', .error (.duplicateProfile id)) ↔ r.policy = .reject ∧
      ∃ before p after, ps = before ++ p :: after ∧ FirstTaken r.profiles before p ∧ p.id = id ∧
        r.registerAll before = (r', .ok ()) := by
  rw [registerAll_eq_error_iff]
  have hregistered : ∀ {before : List Profile}, r.registerAll before = (r', .ok ()) →
      r'.Views (log ++ r.accepted before) := by
    intro before hbefore
    have := h.registerAll before
    rwa [hbefore] at this
  constructor
  · rintro ⟨before, p, after, rfl, hbefore, hp⟩
    obtain ⟨-, ⟨fault, -, h'⟩ | ⟨-, reject, htaken, hid⟩⟩ :=
      (hregistered hbefore).register_eq_error_iff.1 hp
    · cases h'
    · rw [policy_of_registerAll hbefore] at reject
      obtain ⟨-, hdistinct, hr'⟩ := (h.registerAll_eq_ok_iff reject).1 hbefore
      rw [hr'] at htaken
      refine ⟨reject, before, p, after, rfl, ⟨htaken, ?_⟩, (Error.duplicateProfile.inj hid).symm,
        hbefore⟩
      exact (nodup_append_iff h.distinct).1 hdistinct
  · rintro ⟨reject, before, p, after, rfl, hfirst, rfl, hbefore⟩
    refine ⟨before, p, after, rfl, hbefore, (hregistered hbefore).register_eq_error_iff.2 ?_⟩
    obtain ⟨-, -, hr'⟩ := (h.registerAll_eq_ok_iff reject).1 hbefore
    have htaken : p.TakenBy r'.profiles := by
      rw [hr']
      exact hfirst.taken
    exact ⟨rfl, .inr ⟨valid p (by simp), (policy_of_registerAll hbefore).trans reject, htaken, rfl⟩⟩

/-- Valid profiles are refused for nothing but their ids. -/
theorem Views.duplicate_of_registerAll (h : r.Views log) (valid : ∀ p ∈ ps, p.Valid)
    (hps : r.registerAll ps = (r', .error e)) : ∃ id, e = .duplicateProfile id := by
  obtain ⟨before, p, after, rfl, hbefore, hp⟩ := registerAll_eq_error_iff.1 hps
  have hviews := h.registerAll before
  rw [hbefore] at hviews
  obtain ⟨-, ⟨fault, hfault, -⟩ | ⟨-, -, -, rfl⟩⟩ := hviews.register_eq_error_iff.1 hp
  · have hvalid : p.fault? = none := valid p (by simp)
    rw [hvalid] at hfault
    cases hfault
  · exact ⟨p.id, rfl⟩

/-! ## Tables -/

/-- Declarations are loaded if they describe profiles and these can be registered. -/
theorem load_eq_ok_iff {ds : List Declaration} :
    r.load ds = (r', .ok ()) ↔
      ∃ ps, ds.mapM Declaration.profile = .ok ps ∧ r.registerAll ps = (r', .ok ()) := by
  rw [load]
  cases ds.mapM Declaration.profile with
  | error e => simp
  | ok ps => simp

/-- Declarations are not loaded if they do not describe profiles, or if these cannot be
registered. -/
theorem load_eq_error_iff {ds : List Declaration} :
    r.load ds = (r', .error e) ↔ (ds.mapM Declaration.profile = .error e ∧ r' = r) ∨
      ∃ ps, ds.mapM Declaration.profile = .ok ps ∧ r.registerAll ps = (r', .error e) := by
  rw [load]
  cases ds.mapM Declaration.profile with
  | error e => simp [eq_comm, and_comm]
  | ok ps => simp

/-- Adds the languages of a table in the given text, when tables are read by `parse`. -/
def loadTableBy (parse : String → Option (List Declaration)) (r : Registry)
    (origin text : String) : Registry × Except Error Unit :=
  match parse text with
  | some declarations => r.load declarations
  | none => (r, .error (.malformedTable origin))

/-- The ways in which a table fails to load, by what is read from it, each with the registry that it
leaves behind. -/
inductive LoadFails (r : Registry) (origin : String) :
    Option (List Declaration) → Registry → Error → Prop where
  /-- The table cannot be read. -/
  | malformed : r.LoadFails origin none r (.malformedTable origin)
  /-- A declaration describes no valid profile, and those before it do. -/
  | invalid {before after : List Declaration} {d : Declaration} {fault : ProfileFault} :
      (∀ b ∈ before, ∃ p, b.profile = .ok p) → d.toProfile = .error fault →
      r.LoadFails origin (some (before ++ d :: after)) r (.invalidProfile d.id fault)
  /-- All declarations describe valid profiles, but an id is taken. The profiles in front of the
  first one whose id is taken are registered. -/
  | duplicate {ds : List Declaration} {before after : List Profile} {p : Profile} {r' : Registry} :
      r.policy = .reject → ds.mapM Declaration.profile = .ok (before ++ p :: after) →
      FirstTaken r.profiles before p → r.registerAll before = (r', .ok ()) →
      r.LoadFails origin (some ds) r' (.duplicateProfile p.id)

/-- A table fails to load in these ways and in no other. -/
theorem Views.loadTableBy_eq_error_iff (h : r.Views log)
    {parse : String → Option (List Declaration)} {origin text : String} :
    loadTableBy parse r origin text = (r', .error e) ↔
      r.LoadFails origin (parse text) r' e := by
  rw [loadTableBy]
  cases parse text with
  | none =>
    constructor
    · intro hfail
      cases hfail
      exact .malformed
    · intro hfail
      cases hfail with
      | malformed => rfl
  | some ds =>
    simp only [load_eq_error_iff]
    constructor
    · rintro (⟨hds, rfl⟩ | ⟨ps, hds, hps⟩)
      · obtain ⟨before, d, after, rfl, hbefore, hd⟩ := mapM_eq_error_iff.1 hds
        obtain ⟨fault, hfault, rfl⟩ := Declaration.profile_eq_error_iff.1 hd
        exact .invalid hbefore hfault
      · have hvalid := (Declaration.valid_of_mapM hds).1
        obtain ⟨id, rfl⟩ := h.duplicate_of_registerAll hvalid hps
        obtain ⟨reject, before, p, after, rfl, hfirst, rfl, hbefore⟩ :=
          (h.registerAll_eq_duplicate_iff hvalid).1 hps
        exact .duplicate reject hds hfirst hbefore
    · intro hfail
      cases hfail with
      | invalid hbefore hfault =>
        refine .inl ⟨mapM_eq_error_iff.2 ⟨_, _, _, rfl, hbefore, ?_⟩, rfl⟩
        exact Declaration.profile_eq_error_iff.2 ⟨_, hfault, rfl⟩
      | duplicate reject hds hfirst hbefore =>
        have hvalid := (Declaration.valid_of_mapM hds).1
        refine .inr ⟨_, hds, (h.registerAll_eq_duplicate_iff hvalid).2 ?_⟩
        exact ⟨reject, _, _, _, rfl, hfirst, rfl, hbefore⟩

section

variable {origin : String} {parsed : Option (List Declaration)}

/-- Only an id that is taken makes a table that fails leave something behind. -/
theorem LoadFails.registry_eq (h : r.LoadFails origin parsed r' e)
    (hother : ∀ id, e ≠ .duplicateProfile id) : r' = r := by
  cases h with
  | malformed | invalid => rfl
  | duplicate => exact absurd rfl (hother _)

/-- Where profiles are replaced, no table fails for an id that is taken. -/
theorem LoadFails.ne_duplicate (h : r.LoadFails origin parsed r' e) (replace : r.policy = .replace)
    (id : String) : e ≠ .duplicateProfile id := by
  cases h with
  | malformed | invalid => simp
  | duplicate reject =>
    rw [reject] at replace
    cases replace

end

/-- What a registry is after a call that failed. A registration fails because the profile breaks a
rule, or else because its id is taken and the policy refuses it, and then everything is as it was.
A table fails to load in the three ways of `LoadFails`, however tables are read: unless the reason is
an id that is taken, the registry is as it was, and under the policy that replaces profiles that is
never the reason. -/
theorem after_failure (r : Registry) (built : r.Built) :
    (∀ p r' e,
      (r.register p = (r', .error e) ↔ r' = r ∧
        ((∃ fault, p.fault? = some fault ∧ e = .invalidProfile p.id fault) ∨
          p.Valid ∧ r.policy = .reject ∧ p.TakenBy r.profiles ∧ e = .duplicateProfile p.id)) ∧
      (r.register p = (r', .error e) → r.registerAll [p] = (r, .error e) ∧
        ∀ log, History.call ⟨r, log⟩ (.register p) = ⟨r, log⟩)) ∧
    (∀ origin text, r.loadTable origin text =
      loadTableBy Declaration.listOfToml? r origin text) ∧
    ∀ (parse : String → Option (List Declaration)) (origin text : String) (r' : Registry)
      (e : Error),
      (loadTableBy parse r origin text = (r', .error e) ↔ r.LoadFails origin (parse text) r' e) ∧
      (loadTableBy parse r origin text = (r', .error e) →
        ((∀ id, e ≠ .duplicateProfile id) → r' = r) ∧
        (r.policy = .replace → ∀ id, e ≠ .duplicateProfile id)) := by
  obtain ⟨log, hviews⟩ := built.views
  refine ⟨fun p r' e => ⟨hviews.register_eq_error_iff, fun hfail => ?_⟩, fun origin text => rfl,
    fun parse origin text r' e => ⟨hviews.loadTableBy_eq_error_iff, fun hfail => ?_⟩⟩
  · obtain rfl := eq_of_register_eq_error hfail
    exact ⟨by rw [registerAll, hfail], fun log => by rw [History.call, hfail]⟩
  · have hfails := hviews.loadTableBy_eq_error_iff.1 hfail
    exact ⟨hfails.registry_eq, hfails.ne_duplicate⟩

open History in
/-- A profile whose id is taken, letter case aside, is refused. Of a table whose second id is taken,
the first language is registered and the third one is not. Of a table whose second declaration is
not sound, none is. -/
theorem after_failure_half_loaded :
    ∃ r r' : Registry, r.Built ∧ r.profiles = [dialect "c" []] ∧
      r.register (dialect "C" []) = (r, .error (.duplicateProfile "C")) ∧
      r'.profiles = [dialect "c" [], dialect "d" []] ∧
      loadTableBy (fun _ => some [(dialect "d" []).declaration, (dialect "C" []).declaration,
        (dialect "e" []).declaration]) r "table" "" = (r', .error (.duplicateProfile "C")) ∧
      loadTableBy (fun _ => some [(dialect "d" []).declaration, { id := " " }]) r "table" "" =
        (r, .error (.invalidProfile " " .emptyId)) := by
  have hc : (ofCalls [.register (dialect "c" [])]).registry.profiles = [dialect "c" []] := by cbv
  have built : (ofCalls [.register (dialect "c" [])]).registry.Built := ⟨_, rfl⟩
  obtain ⟨hregister, -, hload⟩ := after_failure _ built
  have hd : ((ofCalls [.register (dialect "c" [])]).registry.registerAll [dialect "d" []]).2 =
      .ok () := by cbv
  have hdeclared : [(dialect "d" []).declaration, (dialect "C" []).declaration,
      (dialect "e" []).declaration].mapM Declaration.profile =
      .ok ([dialect "d" []] ++ dialect "C" [] :: [dialect "e" []]) := by cbv
  have htaken : ∀ ps, dialect "c" [] ∈ ps → (dialect "C" []).TakenBy ps := fun ps hps =>
    List.mem_map.2 ⟨dialect "c" [], hps, by cbv⟩
  have hfirst : FirstTaken [dialect "c" []] [dialect "d" []] (dialect "C" []) := by
    refine ⟨htaken _ (by simp), fun earlier q later hq => ?_⟩
    cases earlier with
    | nil =>
      cases hq
      unfold Profile.TakenBy
      decide
    | cons => simp at hq
  have hsound : ∀ b ∈ [(dialect "d" []).declaration], ∃ p, b.profile = .ok p := by
    intro b hb
    exact ⟨dialect "d" [], by rw [List.mem_singleton.1 hb]; cbv⟩
  refine ⟨_, ((ofCalls [.register (dialect "c" [])]).registry.registerAll [dialect "d" []]).1,
    built, hc, ?_, by cbv, ?_, ?_⟩
  · refine (hregister _ _ _).1.2 ⟨rfl, .inr ⟨by cbv, rfl, htaken _ ?_, rfl⟩⟩
    rw [hc]
    exact List.mem_singleton_self _
  · exact (hload _ _ _ _ _).1.2 (.duplicate rfl hdeclared (hc ▸ hfirst) (Prod.ext rfl hd))
  · exact (hload _ _ _ _ _).1.2 (.invalid hsound (by cbv))

end Registry

end SourceTally
