import SourceTally.Proofs.Basic
import SourceTally.Settings

/-!
# Registries as views of what was registered

A registry is changed by a few calls, in any order: the policy is set, a profile is registered, a
table of languages is loaded. `History` runs such calls and keeps a log of the profiles that were
accepted. The registry is determined by that log (`Registry.Views`): its profiles are the entries of
the log that no later entry takes the place of (`latest`), and its indexes are those of its
profiles. One registration keeps this (`Registry.Views.register`), hence every call does, and every
run of calls (`History.views`). `History.registry_of_calls` says what follows for look-ups.
-/

namespace SourceTally

/-! ## Indexes -/

/-- The position is that of the last of the profiles that have the key. -/
structure LastWith (keys : Profile → List String) (key : String) (profiles : List Profile)
    (position : Nat) : Prop where
  has : ∃ p, profiles[position]? = some p ∧ key ∈ keys p
  last : ∀ later q, position < later → profiles[later]? = some q → key ∉ keys q

section

variable {keys : Profile → List String} {key : String} {profiles : List Profile} {p : Profile}
  {position : Nat}

/-- No position is that of a profile among none. -/
theorem not_lastWith_nil : ¬ LastWith keys key [] position := by
  rintro ⟨⟨p, hp, -⟩, -⟩
  cases hp

/-- A profile at the end that has the key is the last one that has it. -/
theorem lastWith_concat_of_mem (h : key ∈ keys p) :
    LastWith keys key (profiles ++ [p]) position ↔ position = profiles.length := by
  constructor
  · rintro ⟨⟨q, hq, -⟩, hlast⟩
    have hlt : position < (profiles ++ [p]).length := (List.getElem?_eq_some_iff.1 hq).1
    rw [List.length_append, List.length_singleton] at hlt
    by_contra hne
    exact hlast profiles.length p (by omega) List.getElem?_concat_length h
  · rintro rfl
    refine ⟨⟨p, List.getElem?_concat_length, h⟩, fun later q hlater hq => ?_⟩
    have hlt : later < (profiles ++ [p]).length := (List.getElem?_eq_some_iff.1 hq).1
    rw [List.length_append, List.length_singleton] at hlt
    omega

/-- A profile at the end that does not have the key does not matter. -/
theorem lastWith_concat_of_notMem (h : key ∉ keys p) :
    LastWith keys key (profiles ++ [p]) position ↔ LastWith keys key profiles position := by
  have hget : ∀ {i : Nat} {q : Profile}, key ∈ keys q →
      ((profiles ++ [p])[i]? = some q ↔ profiles[i]? = some q) := by
    intro i q hq
    rcases Nat.lt_trichotomy i profiles.length with hlt | rfl | hgt
    · rw [List.getElem?_append_left hlt]
    · rw [List.getElem?_concat_length, List.getElem?_eq_none (Nat.le_refl _)]
      refine iff_of_false (fun hp => h ?_) (Option.some_ne_none q).symm
      rwa [Option.some.inj hp]
    · rw [List.getElem?_eq_none (by simp; omega), List.getElem?_eq_none (by omega)]
  constructor
  · rintro ⟨⟨q, hq, hkey⟩, hlast⟩
    exact ⟨⟨q, (hget hkey).1 hq, hkey⟩, fun later q' hlater hq' hkey' =>
      hlast later q' hlater ((hget hkey').2 hq') hkey'⟩
  · rintro ⟨⟨q, hq, hkey⟩, hlast⟩
    exact ⟨⟨q, (hget hkey).2 hq, hkey⟩, fun later q' hlater hq' hkey' =>
      hlast later q' hlater ((hget hkey').1 hq') hkey'⟩

namespace Index

/-- The keys of a profile at the end come first in the index. -/
theorem ofProfiles_concat :
    ofProfiles keys (profiles ++ [p]) =
      (keys p).reverse.map (·, profiles.length) ++ ofProfiles keys profiles := by
  simp [ofProfiles, List.zipIdx_append]

/-- Keys that share a position are all found there. -/
theorem lookup_map_position (texts : List String) :
    (texts.map (·, position)).lookup key = if key ∈ texts then some position else none := by
  induction texts with
  | nil => rfl
  | cons text texts ih =>
    rw [List.map_cons, List.lookup_cons, ih]
    by_cases h : key = text
    · simp [h]
    · simp [h, beq_eq_false_iff_ne.2 h]

/-- The index finds the last profile that has a key, and nothing for a key that no profile has. -/
theorem lookup_ofProfiles_eq_some_iff :
    (ofProfiles keys profiles).lookup key = some position ↔
      LastWith keys key profiles position := by
  induction profiles using List.reverseRecOn with
  | nil => exact iff_of_false (by simp [ofProfiles]) not_lastWith_nil
  | append_singleton profiles p ih =>
    rw [ofProfiles_concat, List.lookup_append, lookup_map_position]
    by_cases h : key ∈ keys p
    · rw [if_pos (List.mem_reverse.2 h), lastWith_concat_of_mem h, Option.some_or,
        Option.some.injEq, eq_comm]
    · rw [if_neg (mt List.mem_reverse.1 h), lastWith_concat_of_notMem h, Option.none_or, ih]

end Index

/-- Where ids differ, letter case aside, the only profile of an id is also the last one. -/
theorem lastWith_key_iff (distinct : (profiles.map Profile.key).Nodup) :
    LastWith (fun p => [p.key]) key profiles position ↔
      ∃ p, profiles[position]? = some p ∧ p.key = key := by
  constructor
  · rintro ⟨⟨p, hp, hkey⟩, -⟩
    exact ⟨p, hp, (List.mem_singleton.1 hkey).symm⟩
  · rintro ⟨p, hp, rfl⟩
    refine ⟨⟨p, hp, List.mem_singleton_self _⟩, fun later q hlater hq hkey => ?_⟩
    have hkeys : (profiles.map Profile.key)[position]? = (profiles.map Profile.key)[later]? := by
      rw [List.getElem?_map, List.getElem?_map, hp, hq]
      exact congrArg some (List.mem_singleton.1 hkey)
    have hlt : position < (profiles.map Profile.key).length := by
      rw [List.length_map]
      exact (List.getElem?_eq_some_iff.1 hp).1
    have heq : position = later := (List.getElem?_inj hlt distinct).1 hkeys
    omega

end

/-! ## The latest entries of a log -/

/-- The entries of a log that no later entry takes the place of. -/
def latest : List Profile → List Profile
  | [] => []
  | p :: log => if log.any (·.key = p.key) then latest log else p :: latest log

section

variable {log : List Profile} {p q : Profile}

theorem mem_of_mem_latest (h : p ∈ latest log) : p ∈ log := by
  induction log with
  | nil => exact h
  | cons first log ih =>
    rw [latest] at h
    split at h
    · exact List.mem_cons_of_mem _ (ih h)
    · rcases List.mem_cons.1 h with rfl | h
      · exact List.mem_cons_self
      · exact List.mem_cons_of_mem _ (ih h)

/-- The latest entries differ in their ids. -/
theorem nodup_latest (log : List Profile) : ((latest log).map Profile.key).Nodup := by
  induction log with
  | nil => exact List.nodup_nil
  | cons first log ih =>
    rw [latest]
    split
    · exact ih
    · next hnone =>
      refine List.nodup_cons.2 ⟨fun hmem => hnone ?_, ih⟩
      obtain ⟨q, hq, hkey⟩ := List.mem_map.1 hmem
      exact List.any_eq_true.2 ⟨q, mem_of_mem_latest hq, decide_eq_true hkey⟩

/-- A new entry takes the place of the one with its id and goes to the end. -/
theorem latest_concat (log : List Profile) (p : Profile) :
    latest (log ++ [p]) = (latest log).filter (·.key ≠ p.key) ++ [p] := by
  induction log with
  | nil => rfl
  | cons first log ih =>
    rw [List.cons_append, latest, latest, List.any_append, ih]
    by_cases hlater : log.any (·.key = first.key) = true
    · simp [hlater]
    · by_cases hkey : p.key = first.key
      · simp [hlater, hkey]
      · have hne : first.key ≠ p.key := fun h => hkey h.symm
        simp [hlater, hkey, hne]

end

/-! ## One registration -/

namespace Registry

variable {r r' : Registry} {log : List Profile} {p q : Profile} {old : Option Profile}
  {key : String} {position : Nat}

/-- A profile is registered if it is valid and its id is not taken, or if it may replace the one
that has its id. -/
theorem register_eq_ok_iff :
    r.register p = (r', .ok old) ↔ p.Valid ∧
      ((r.idIndex.lookup p.key = none ∧ r' = r.withProfiles (r.profiles ++ [p]) ∧ old = none) ∨
        ∃ position, r.idIndex.lookup p.key = some position ∧ r.policy = .replace ∧
          r' = r.withProfiles (r.profiles.eraseIdx position ++ [p]) ∧
          old = r.profiles[position]?) := by
  unfold register Profile.Valid
  cases p.fault? with
  | some fault => simp
  | none =>
    cases r.idIndex.lookup p.key with
    | none => simp [eq_comm]
    | some position => cases r.policy <;> simp [eq_comm]

/-- A registration that fails gives the registry back as it was. -/
theorem eq_of_register_eq_error {e : Error} (h : r.register p = (r', .error e)) : r' = r := by
  unfold register at h
  split at h
  · exact (Prod.mk.inj h).1.symm
  · split at h
    · cases h
    · split at h
      · exact (Prod.mk.inj h).1.symm
      · cases h

/-- The registry is what a log of registered profiles comes to. -/
structure Views (log : List Profile) (r : Registry) : Prop where
  profiles_eq : r.profiles = latest log
  indexed : r.withProfiles r.profiles = r
  valid : ∀ p ∈ log, p.Valid

/-- Nothing was registered in an empty registry. -/
theorem views_nil : Views [] {} :=
  ⟨rfl, rfl, fun _ hp => (List.not_mem_nil hp).elim⟩

/-- The policy is no part of what is registered. -/
theorem Views.withPolicy (h : r.Views log) (policy : DuplicatePolicy) :
    Views log { r with policy := policy } :=
  ⟨h.profiles_eq, congrArg (fun r : Registry => { r with policy := policy }) h.indexed, h.valid⟩

/-- No two profiles of a registry share their id, letter case aside. -/
theorem Views.distinct (h : r.Views log) : (r.profiles.map Profile.key).Nodup := by
  rw [h.profiles_eq]
  exact nodup_latest log

theorem Views.valid_of_mem (h : r.Views log) (hp : p ∈ r.profiles) : p.Valid :=
  h.valid p (mem_of_mem_latest (h.profiles_eq ▸ hp))

theorem Views.lookup_fileNameIndex (h : r.Views log) :
    r.fileNameIndex.lookup key = some position ↔
      LastWith Profile.fileNameKeys key r.profiles position := by
  rw [← Index.lookup_ofProfiles_eq_some_iff, ← congrArg fileNameIndex h.indexed]
  rfl

theorem Views.lookup_extensionIndex (h : r.Views log) :
    r.extensionIndex.lookup key = some position ↔
      LastWith Profile.extensions key r.profiles position := by
  rw [← Index.lookup_ofProfiles_eq_some_iff, ← congrArg extensionIndex h.indexed]
  rfl

theorem Views.lookup_idIndex (h : r.Views log) :
    r.idIndex.lookup key = some position ↔
      ∃ p, r.profiles[position]? = some p ∧ p.key = key := by
  rw [← lastWith_key_iff h.distinct, ← Index.lookup_ofProfiles_eq_some_iff,
    ← congrArg idIndex h.indexed]
  rfl

/-- The id finds the only profile that has it, letter case aside. -/
theorem Views.get?_eq_some_iff (h : r.Views log) {id : String} :
    r.get? id = some p ↔ p ∈ r.profiles ∧ p.key = Text.lower id := by
  rw [get?, Option.bind_eq_some_iff]
  constructor
  · rintro ⟨position, hlookup, hp⟩
    obtain ⟨q, hq, hkey⟩ := h.lookup_idIndex.1 hlookup
    cases hp.symm.trans hq
    exact ⟨List.mem_of_getElem? hp, hkey⟩
  · rintro ⟨hmem, hkey⟩
    obtain ⟨position, hp⟩ := List.mem_iff_getElem?.1 hmem
    exact ⟨position, h.lookup_idIndex.2 ⟨p, hp, hkey⟩, hp⟩

/-- A file name leads to a position of the registry. -/
theorem Views.position?_lt (h : r.Views log) {name : String}
    (hname : r.position? name = some position) : position < r.profiles.length := by
  have hlt : ∀ {keys : Profile → List String} {key : String},
      LastWith keys key r.profiles position → position < r.profiles.length := by
    rintro keys key ⟨⟨p, hp, -⟩, -⟩
    exact (List.getElem?_eq_some_iff.1 hp).1
  simp only [position?] at hname
  split at hname
  next hfound =>
    cases hname
    exact hlt (h.lookup_fileNameIndex.1 hfound)
  next =>
    obtain ⟨extension, -, hfound⟩ := List.exists_of_findSome?_eq_some hname
    exact hlt (h.lookup_extensionIndex.1 hfound)

/-- Where ids differ, taking a profile out by its position is taking it out by its id. -/
theorem eraseIdx_eq_filter {profiles : List Profile}
    (distinct : (profiles.map Profile.key).Nodup) (h : profiles[position]? = some q) :
    profiles.eraseIdx position = profiles.filter (·.key ≠ q.key) := by
  induction profiles generalizing position with
  | nil => cases h
  | cons first profiles ih =>
    rw [List.map_cons, List.nodup_cons] at distinct
    cases position with
    | zero =>
      cases h
      have hkept : profiles.filter (·.key ≠ q.key) = profiles := by
        refine List.filter_eq_self.2 fun p hp => decide_eq_true fun hkey => distinct.1 ?_
        exact hkey ▸ List.mem_map_of_mem hp
      rw [List.eraseIdx_cons_zero, List.filter_cons_of_neg (by simp), hkept]
    | succ position =>
      have hq : profiles[position]? = some q := h
      have hne : first.key ≠ q.key := fun hkey =>
        distinct.1 (hkey ▸ List.mem_map_of_mem (List.mem_of_getElem? hq))
      rw [List.eraseIdx_cons_succ, List.filter_cons_of_pos (by simpa using hne), ih distinct.2 hq]

/-- An id that the index does not know is that of no profile. -/
theorem Views.filter_eq_self (h : r.Views log) (hnone : r.idIndex.lookup p.key = none) :
    r.profiles.filter (·.key ≠ p.key) = r.profiles := by
  refine List.filter_eq_self.2 fun q hq => decide_eq_true fun hkey => ?_
  obtain ⟨position, hposition⟩ := List.mem_iff_getElem?.1 hq
  have hsome := h.lookup_idIndex.2 ⟨q, hposition, hkey⟩
  exact Option.some_ne_none position (hsome.symm.trans hnone)

/-- A registration adds an entry to the log, and gives back the profile that had the id. -/
theorem Views.register (h : r.Views log) (hreg : r.register p = (r', .ok old)) :
    r'.Views (log ++ [p]) ∧ old = r.get? p.id := by
  have hlatest : latest (log ++ [p]) = r.profiles.filter (·.key ≠ p.key) ++ [p] := by
    rw [latest_concat, h.profiles_eq]
  obtain ⟨hvalid, hcases⟩ := register_eq_ok_iff.1 hreg
  have hall : ∀ q ∈ log ++ [p], q.Valid := by
    intro q hq
    rcases List.mem_append.1 hq with hq | hq
    · exact h.valid q hq
    · rwa [List.mem_singleton.1 hq]
  rcases hcases with ⟨hnone, rfl, rfl⟩ | ⟨position, hsome, -, rfl, rfl⟩
  · have hget : r.get? p.id = none := congrArg (Option.bind · _) hnone
    rw [h.filter_eq_self hnone] at hlatest
    exact ⟨⟨hlatest.symm, rfl, hall⟩, hget.symm⟩
  · have hget : r.get? p.id = r.profiles[position]? := congrArg (Option.bind · _) hsome
    obtain ⟨q, hq, hkey⟩ := h.lookup_idIndex.1 hsome
    rw [← hkey, ← eraseIdx_eq_filter h.distinct hq] at hlatest
    exact ⟨⟨hlatest.symm, rfl, hall⟩, hget.symm⟩

/-! ## Several registrations -/

/-- The profiles that are accepted when they are registered one after the other. -/
def accepted (r : Registry) : List Profile → List Profile
  | [] => []
  | p :: ps =>
    match r.register p with
    | (_, .error _) => []
    | (r', .ok _) => p :: r'.accepted ps

/-- The profiles that are accepted from declarations. -/
def loaded (r : Registry) (declarations : List Declaration) : List Profile :=
  match declarations.mapM Declaration.profile with
  | .error _ => []
  | .ok ps => r.accepted ps

/-- Registering profiles one after the other adds those that are accepted to the log. -/
theorem Views.registerAll (h : r.Views log) (ps : List Profile) :
    (r.registerAll ps).1.Views (log ++ r.accepted ps) := by
  induction ps generalizing r log with
  | nil => rwa [accepted, List.append_nil]
  | cons p ps ih =>
    rw [Registry.registerAll, accepted]
    rcases hreg : r.register p with ⟨next, e | old⟩
    · rwa [eq_of_register_eq_error hreg, List.append_nil]
    · have hmore := ih (h.register hreg).1
      rwa [List.append_assoc, List.singleton_append] at hmore

/-- Loading declarations adds those that are accepted to the log. -/
theorem Views.load (h : r.Views log) (declarations : List Declaration) :
    (r.load declarations).1.Views (log ++ r.loaded declarations) := by
  rw [Registry.load, loaded]
  cases declarations.mapM Declaration.profile with
  | error e => rwa [List.append_nil]
  | ok ps => exact h.registerAll ps

end Registry

/-! ## Histories -/

/-- A call that changes a registry. -/
inductive Call where
  | setPolicy (policy : DuplicatePolicy)
  | register (p : Profile)
  | load (declarations : List Declaration)
  /-- Loads the languages that a text declares. -/
  | loadTable (origin text : String)

/-- A registry with the log of the profiles that it accepted. -/
structure History where
  registry : Registry := {}
  log : List Profile := []

namespace History

/-- The history with one more call. -/
def call (h : History) : Call → History
  | .setPolicy policy => { h with registry := { h.registry with policy := policy } }
  | .register p =>
    match h.registry.register p with
    | (registry, .error _) => ⟨registry, h.log⟩
    | (registry, .ok _) => ⟨registry, h.log ++ [p]⟩
  | .load declarations =>
    ⟨(h.registry.load declarations).1, h.log ++ h.registry.loaded declarations⟩
  | .loadTable origin text =>
    ⟨(h.registry.loadTable origin text).1,
      h.log ++ (Declaration.listOfToml? text).elim [] h.registry.loaded⟩

/-- The history of calls on an empty registry. -/
def ofCalls (calls : List Call) : History :=
  calls.foldl call {}

/-- A call keeps the registry a view of its log. -/
theorem views_call {h : History} (hviews : h.registry.Views h.log) (c : Call) :
    (h.call c).registry.Views (h.call c).log := by
  cases c with
  | setPolicy policy => exact hviews.withPolicy policy
  | register p =>
    rw [call]
    rcases hreg : h.registry.register p with ⟨next, e | old⟩
    · rwa [Registry.eq_of_register_eq_error hreg]
    · exact (hviews.register hreg).1
  | load declarations => exact hviews.load declarations
  | loadTable origin text =>
    rw [call, Registry.loadTable]
    cases Declaration.listOfToml? text with
    | none => simpa using hviews
    | some declarations => exact hviews.load declarations

/-- After any calls the registry is a view of its log. -/
theorem views (calls : List Call) : (ofCalls calls).registry.Views (ofCalls calls).log := by
  suffices hfold : ∀ h : History, h.registry.Views h.log →
      (calls.foldl call h).registry.Views (calls.foldl call h).log from
    hfold {} Registry.views_nil
  induction calls with
  | nil => exact fun _ hviews => hviews
  | cons c calls ih => exact fun h hviews => ih (h.call c) (views_call hviews c)

/-- What calls come to, in any number and order. The profiles are the entries of the log that have
no later entry with the same id, letter case aside; they are valid and differ in their ids, and an
id finds the one that has it. The indexes know exactly the ids, file names and extensions of the
profiles, each with the position of the last profile that has it, so no look-up leads out of the
list. A registration gives back the profile that had the id before, if there was one. -/
theorem registry_of_calls (calls : List Call) :
    (ofCalls calls).registry.profiles = latest (ofCalls calls).log ∧
    (∀ p ∈ (ofCalls calls).registry.profiles, p.Valid) ∧
    ((ofCalls calls).registry.profiles.map Profile.key).Nodup ∧
    (∀ id p, (ofCalls calls).registry.get? id = some p ↔
      p ∈ (ofCalls calls).registry.profiles ∧ p.key = Text.lower id) ∧
    (∀ key position, (ofCalls calls).registry.idIndex.lookup key = some position ↔
      ∃ p, (ofCalls calls).registry.profiles[position]? = some p ∧ p.key = key) ∧
    (∀ key position, (ofCalls calls).registry.fileNameIndex.lookup key = some position ↔
      LastWith Profile.fileNameKeys key (ofCalls calls).registry.profiles position) ∧
    (∀ key position, (ofCalls calls).registry.extensionIndex.lookup key = some position ↔
      LastWith Profile.extensions key (ofCalls calls).registry.profiles position) ∧
    (∀ name position, (ofCalls calls).registry.position? name = some position →
      position < (ofCalls calls).registry.profiles.length) ∧
    (∀ p registry old, (ofCalls calls).registry.register p = (registry, .ok old) →
      ∀ q, old = some q ↔ q ∈ (ofCalls calls).registry.profiles ∧ q.key = p.key) := by
  have hviews := views calls
  refine ⟨hviews.profiles_eq, fun p => hviews.valid_of_mem, hviews.distinct,
    fun id p => hviews.get?_eq_some_iff, fun key position => hviews.lookup_idIndex,
    fun key position => hviews.lookup_fileNameIndex,
    fun key position => hviews.lookup_extensionIndex, fun name position => hviews.position?_lt,
    fun p registry old hreg q => ?_⟩
  rw [(hviews.register hreg).2]
  exact hviews.get?_eq_some_iff

/-- A language that has nothing but a line comment. -/
def dialect (id : String) (extensions : List String) : Profile where
  id := id
  name := id
  extensions := extensions
  lineComments := ["//".toList]

/-- A language that takes the place of another one gives up the extensions that only that one had,
and goes behind the language that was registered between them. -/
theorem registry_of_calls_replaced :
    ∃ h : History, h = ofCalls [.register (dialect "c" ["c", "h"]), .register (dialect "d" ["h"]),
        .setPolicy .replace, .register (dialect "C" ["c"])] ∧
      h.log = [dialect "c" ["c", "h"], dialect "d" ["h"], dialect "C" ["c"]] ∧
      h.registry.profiles = [dialect "d" ["h"], dialect "C" ["c"]] ∧
      h.registry.get? "c" = some (dialect "C" ["c"]) ∧
      h.registry.extensionIndex.lookup "h" = some 0 ∧
      ∀ registry old, h.registry.register (dialect "D" []) = (registry, .ok old) →
        old = some (dialect "d" ["h"]) := by
  obtain ⟨hprofiles, -, -, hget, -, -, hextension, -, hregister⟩ := registry_of_calls
    [.register (dialect "c" ["c", "h"]), .register (dialect "d" ["h"]), .setPolicy .replace,
      .register (dialect "C" ["c"])]
  have hlog : (ofCalls [.register (dialect "c" ["c", "h"]), .register (dialect "d" ["h"]),
      .setPolicy .replace, .register (dialect "C" ["c"])]).log =
      [dialect "c" ["c", "h"], dialect "d" ["h"], dialect "C" ["c"]] := by cbv
  have hlatest : latest [dialect "c" ["c", "h"], dialect "d" ["h"], dialect "C" ["c"]] =
      [dialect "d" ["h"], dialect "C" ["c"]] := by cbv
  rw [hlog, hlatest] at hprofiles
  refine ⟨_, rfl, hlog, hprofiles, ?_, ?_, fun registry old hreg => ?_⟩
  · rw [hget, hprofiles]
    exact ⟨by simp, by cbv⟩
  · rw [hextension, hprofiles]
    refine ⟨⟨_, rfl, by simp [dialect]⟩, fun later q hlater hq => ?_⟩
    cases later with
    | zero => exact absurd hlater (Nat.lt_irrefl 0)
    | succ later =>
      cases later with
      | zero =>
        cases hq
        simp [dialect]
      | succ => cases hq
  · rw [hregister _ _ _ hreg, hprofiles]
    exact ⟨by simp, by cbv⟩

end History

namespace Registry

variable {r r' : Registry} {p : Profile} {old : Option Profile}

/-- The registry is what some calls come to. -/
def Built (r : Registry) : Prop :=
  ∃ calls, (History.ofCalls calls).registry = r

theorem Built.views (h : r.Built) : ∃ log, r.Views log := by
  obtain ⟨calls, rfl⟩ := h
  exact ⟨_, History.views calls⟩

/-- A registry stays built when another call is made. -/
theorem Built.call (h : r.Built) (c : Call) : ∃ log, (History.call ⟨r, log⟩ c).registry.Built := by
  obtain ⟨calls, rfl⟩ := h
  refine ⟨(History.ofCalls calls).log, calls ++ [c], ?_⟩
  rw [History.ofCalls, List.foldl_append]
  rfl

/-- A registry stays built when a profile is registered. -/
theorem Built.register (h : r.Built) (hreg : r.register p = (r', .ok old)) : r'.Built := by
  obtain ⟨log, hcall⟩ := h.call (.register p)
  rwa [History.call, hreg] at hcall

/-- Declared languages that are added to a built registry make up a built registry. -/
theorem Built.registerDeclared {declarations : List Declaration} (h : r.Built)
    (hreg : Settings.registerDeclared r declarations = .ok r') : r'.Built := by
  induction declarations generalizing r with
  | nil =>
    cases hreg
    exact h
  | cons d declarations ih =>
    simp only [Settings.registerDeclared, bind_eq_ok_iff] at hreg
    obtain ⟨p, -, old, hnext, hrest⟩ := hreg
    exact ih (h.register (Prod.ext rfl hnext)) hrest

theorem Built.load (h : r.Built) (declarations : List Declaration) :
    (r.load declarations).1.Built := by
  obtain ⟨log, hcall⟩ := h.call (.load declarations)
  exact hcall

/-- The registry of the built-in languages is built. -/
theorem built_builtin : builtin.Built := by
  rw [builtin]
  exact Built.load ⟨[], rfl⟩ Profile.builtin

/-- The registry of a run is built, whatever the settings. -/
theorem built_of_settings {s : Settings} (h : s.registry = .ok r) : r.Built := by
  obtain ⟨log, hbase⟩ := built_builtin.call (.setPolicy s.policy)
  exact hbase.registerDeclared h

/-! ## Look-ups -/

/-- A file name leads to a profile of the registry. -/
theorem mem_of_byFileName? {name : String} (h : r.byFileName? name = some p) : p ∈ r.profiles := by
  obtain ⟨position, -, hp⟩ := Option.bind_eq_some_iff.1 h
  exact List.mem_of_getElem? hp

/-- A path leads to a profile of the registry, or to none at all. -/
theorem resolvePath_cases (r : Registry) (path : Path) :
    (∃ p ∈ r.profiles, r.resolvePath path = .ok p) ∨
      r.resolvePath path = .error (.unknownLanguage path.text) := by
  unfold resolvePath
  cases hfound : (path.fileName?.bind Name.text?).bind r.byFileName? with
  | none => exact .inr rfl
  | some p =>
    obtain ⟨name, -, hname⟩ := Option.bind_eq_some_iff.1 hfound
    exact .inl ⟨p, mem_of_byFileName? hname, rfl⟩

/-- A name leads to a profile of the registry. -/
theorem mem_of_resolve {name : String} (h : r.resolve name = .ok p) : p ∈ r.profiles := by
  unfold resolve at h
  cases hget : r.get? name with
  | some q =>
    rw [hget] at h
    cases h
    obtain ⟨position, -, hp⟩ := Option.bind_eq_some_iff.1 hget
    exact List.mem_of_getElem? hp
  | none =>
    rw [hget] at h
    cases hname : r.byFileName? (((Path.ofText name).fileName?.bind Name.text?).getD name) with
    | none => simp [hname] at h
    | some q =>
      simp only [hname, Except.ok.injEq] at h
      exact h ▸ mem_of_byFileName? hname

end Registry

end SourceTally
