import CallbackGateway.Config.Basic
import CallbackGateway.Proofs.Record.Agreement
import Mathlib.Data.List.Nodup

/-!
# What a valid configuration provides

The checks of a configuration are made once, when it is loaded. What is relied on later follows
from them: the ids of the apps are distinct, every key can be read, and an app that takes sealed
pushes has a key. So the credentials of all apps are found by their ids, and no others.
-/

namespace CallbackGateway

namespace Config

/-! ## Apps -/

/-- A rule that was checked holds. -/
theorem require_eq_ok {holds : Bool} {error : ConfigError} {u : Unit}
    (h : require holds error = .ok u) : holds = true := by
  cases holds with
  | true => rfl
  | false => cases h

/-- The key of a valid app can be read, and the app has one if it takes sealed pushes. -/
theorem App.exists_key_of_validate {app : App} (h : app.validate = .ok ()) :
    ∃ key, app.key = .ok key ∧ (app.mode.acceptsSealed = true → key.isSome = true) := by
  obtain ⟨_, -, h⟩ := exists_of_bind_eq_ok h
  obtain ⟨_, -, h⟩ := exists_of_bind_eq_ok h
  obtain ⟨_, hrequired, h⟩ := exists_of_bind_eq_ok h
  obtain ⟨key, hkey, -⟩ := exists_of_bind_eq_ok h
  refine ⟨key, hkey, fun hsealed => ?_⟩
  have hgiven : app.encodingKey.isSome = true := by
    have hplain : (app.mode == .plain) = false := by
      simpa [AcceptedEncoding.acceptsSealed] using hsealed
    simpa [hplain] using require_eq_ok hrequired
  obtain ⟨text, htext⟩ := Option.isSome_iff_exists.mp hgiven
  rw [App.key, htext] at hkey
  obtain ⟨parsed, -, rfl⟩ := exists_of_map_eq_ok hkey
  rfl

/-- The apps of a valid configuration are valid, and none has the id of another one. -/
theorem distinct_of_validateApps {seen : List String} {apps : List App}
    (h : validateApps seen apps = .ok ()) :
    (apps.map App.id).Nodup ∧ ∀ app ∈ apps, app.id ∉ seen ∧ app.validate = .ok () := by
  induction apps generalizing seen with
  | nil => exact ⟨List.nodup_nil, by simp⟩
  | cons app apps ih =>
    obtain ⟨_, hnew, h⟩ := exists_of_bind_eq_ok h
    obtain ⟨_, hvalid, hrest⟩ := exists_of_bind_eq_ok h
    obtain ⟨hdistinct, hothers⟩ := ih hrest
    have hunseen : app.id ∉ seen := by simpa using require_eq_ok hnew
    refine ⟨List.nodup_cons.mpr ⟨fun hmem => ?_, hdistinct⟩, ?_⟩
    · obtain ⟨other, hother, hsame⟩ := List.mem_map.mp hmem
      exact (hothers other hother).1 (hsame ▸ List.mem_cons_self)
    · rw [List.forall_mem_cons]
      exact ⟨⟨hunseen, hvalid⟩, fun other hother =>
        ⟨fun hmem => (hothers other hother).1 (List.mem_cons_of_mem _ hmem),
          (hothers other hother).2⟩⟩

/-- A valid configuration has valid apps. -/
theorem validateApps_of_validate {config : Config} (h : config.validate = .ok ()) :
    validateApps [] config.apps = .ok () := by
  obtain ⟨_, -, h⟩ := exists_of_bind_eq_ok h
  obtain ⟨_, -, h⟩ := exists_of_bind_eq_ok h
  obtain ⟨_, -, h⟩ := exists_of_bind_eq_ok h
  exact h

end Config

/-! ## Stores -/

namespace CredentialStore

variable {entries : List Credentials}

/-- Entries with new ids are added behind the others. -/
theorem foldl_insert {store : CredentialStore}
    (h : ((store.entries ++ entries).map Credentials.appId).Nodup) :
    (entries.foldl insert store).entries = store.entries ++ entries := by
  induction entries generalizing store with
  | nil => rw [List.foldl_nil, List.append_nil]
  | cons entry entries ih =>
    have hkept : store.entries.filter (·.appId != entry.appId) = store.entries := by
      rw [List.map_append, List.nodup_append] at h
      refine List.filter_eq_self.mpr fun other hother => bne_iff_ne.mpr ?_
      exact h.2.2 other.appId (List.mem_map_of_mem hother) entry.appId List.mem_cons_self
    have hinsert : (store.insert entry).entries = store.entries ++ [entry] := by
      rw [insert, hkept]
    have hnext : (((store.insert entry).entries ++ entries).map Credentials.appId).Nodup := by
      rwa [hinsert, List.append_assoc, List.singleton_append]
    rw [List.foldl_cons, ih hnext, hinsert, List.append_assoc, List.singleton_append]

/-- A store of entries with distinct ids holds all of them. -/
theorem entries_ofList (h : (entries.map Credentials.appId).Nodup) :
    (ofList entries).entries = entries := by
  rw [ofList, foldl_insert (by rwa [empty, List.nil_append]), empty, List.nil_append]

/-- An entry is found by its id if no other entry has this id. -/
theorem find?_of_mem {store : CredentialStore} {credentials : Credentials}
    (hdistinct : (store.entries.map Credentials.appId).Nodup) (h : credentials ∈ store.entries) :
    store.find? credentials.appId = some credentials := by
  obtain ⟨entries⟩ := store
  rw [find?]
  induction entries with
  | nil => exact absurd h List.not_mem_nil
  | cons entry entries ih =>
    rw [List.map_cons, List.nodup_cons] at hdistinct
    rw [List.find?_cons]
    rcases List.mem_cons.mp h with rfl | h
    · rw [beq_self_eq_true]
    · have hother : (entry.appId == credentials.appId) = false := by
        refine beq_false_of_ne fun hsame => hdistinct.1 ?_
        exact hsame ▸ List.mem_map_of_mem h
      rw [hother]
      exact ih hdistinct.2 h

/-- What is found is an entry with this id. -/
theorem mem_of_find? {store : CredentialStore} {credentials : Credentials} {appId : String}
    (h : store.find? appId = some credentials) :
    credentials ∈ store.entries ∧ credentials.appId = appId := by
  have hid := List.find?_some h
  exact ⟨List.mem_of_find?_eq_some h, eq_of_beq hid⟩

/-- Whether every app of a store that takes sealed pushes has a key. -/
def HasKeys (store : CredentialStore) : Prop :=
  ∀ appId credentials, store.find? appId = some credentials →
    credentials.mode.acceptsSealed = true → credentials.key.isSome = true

end CredentialStore

namespace Config

/-! ## Credentials -/

/-- The entry of an app whose key can be read. -/
def App.entry (app : App) : Credentials :=
  ⟨app.id, app.token, app.key.toOption.join, app.mode⟩

/-- The entry of an app holds its key. -/
theorem App.entry_of_key {app : App} {key : Option Payload.Key} (h : app.key = .ok key) :
    app.entry = ⟨app.id, app.token, key, app.mode⟩ := by
  rw [App.entry, h]
  rfl

/-- Apps whose keys can be read have credentials, one for each app. -/
theorem mapM_credentials {apps : List App} (h : ∀ app ∈ apps, ∃ key, app.key = .ok key) :
    apps.mapM App.credentials = .ok (apps.map App.entry) := by
  induction apps with
  | nil => rfl
  | cons app apps ih =>
    obtain ⟨⟨key, hkey⟩, hrest⟩ := List.forall_mem_cons.mp h
    have hentry : app.credentials = .ok app.entry := by
      rw [App.credentials, App.entry_of_key hkey, hkey]
      rfl
    rw [List.mapM_cons, hentry, ih hrest]
    rfl

/-- The store of a valid configuration: each app is found by its id, with its token, its mode and
its key, and nothing else is found. -/
theorem exists_store_of_validate {config : Config} (h : config.validate = .ok ()) :
    ∃ store, config.credentials = .ok store ∧ store.size = config.apps.length ∧
      (∀ app ∈ config.apps, ∃ key, app.key = .ok key ∧
        store.find? app.id = some ⟨app.id, app.token, key, app.mode⟩) ∧
      (∀ appId, (∀ app ∈ config.apps, app.id ≠ appId) → store.find? appId = none) ∧
      store.HasKeys := by
  obtain ⟨hdistinct, hvalid⟩ := distinct_of_validateApps (validateApps_of_validate h)
  have hkeys : ∀ app ∈ config.apps, ∃ key, app.key = .ok key ∧
      (app.mode.acceptsSealed = true → key.isSome = true) := fun app happ =>
    App.exists_key_of_validate (hvalid app happ).2
  have hids : ((config.apps.map App.entry).map Credentials.appId).Nodup := by
    rwa [List.map_map]
  have hentries := CredentialStore.entries_ofList hids
  have hall := mapM_credentials fun app happ => (hkeys app happ).imp fun _ hkey => hkey.1
  refine ⟨.ofList (config.apps.map App.entry), ?_, ?_, ?_, ?_, ?_⟩
  · rw [Config.credentials, hall]
    rfl
  · rw [CredentialStore.size, hentries, List.length_map]
  · intro app happ
    obtain ⟨key, hkey, -⟩ := hkeys app happ
    refine ⟨key, hkey, ?_⟩
    rw [← App.entry_of_key hkey]
    exact CredentialStore.find?_of_mem (hentries ▸ hids)
      (hentries ▸ List.mem_map_of_mem happ)
  · intro appId hother
    refine Option.eq_none_iff_forall_ne_some.mpr fun credentials hfound => ?_
    obtain ⟨hmem, hid⟩ := CredentialStore.mem_of_find? hfound
    obtain ⟨app, happ, rfl⟩ := List.mem_map.mp (hentries ▸ hmem)
    exact hother app happ hid
  · intro appId credentials hfound hsealed
    obtain ⟨app, happ, rfl⟩ := List.mem_map.mp (hentries ▸ (CredentialStore.mem_of_find? hfound).1)
    obtain ⟨key, hkey, hgiven⟩ := hkeys app happ
    rw [App.entry_of_key hkey] at hsealed ⊢
    exact hgiven hsealed

end Config

end CallbackGateway
