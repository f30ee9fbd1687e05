import Mathlib.Data.List.Basic

/-!
# The update from 0.4.5 to 0.4.6 and the privileges

The update drops `publish` and `autonomous_publish` and creates them anew. Before that it
writes a `GRANT` for each of them from the rows of `information_schema.routine_privileges`,
and afterwards it executes these. How PostgreSQL reads such a text is a parameter. A `GRANT`
only adds to what `CREATE FUNCTION` has granted, and that is `PUBLIC`.
-/
namespace PgAmqp

/-- The functions that are dropped and created anew. -/
inductive Recreated where
  | autonomousPublish | publish
  deriving DecidableEq, Repr

def Recreated.name : Recreated → String
  | .autonomousPublish => "autonomous_publish"
  | .publish => "publish"

/-- Who an access list names: `PUBLIC`, or a role. -/
inductive Grantee where
  | everyone
  | role (name : String)
  deriving DecidableEq, Repr

/-- The column `grantee` of `information_schema.routine_privileges`. -/
def Grantee.bare : Grantee → String
  | .everyone => "PUBLIC"
  | .role name => name

/-- The access list of each function, for `EXECUTE`. -/
abbrev Privileges := Recreated → List Grantee

/-- A `GRANT EXECUTE ON FUNCTION .. TO ..`. -/
structure Grant where
  function : Recreated
  grantees : List Grantee
  deriving DecidableEq, Repr

def Privileges.grant (p : Privileges) (g : Grant) : Privileges := fun f =>
  if f = g.function then p f ++ g.grantees else p f

/-- The roles of the cluster, and whose privileges a role inherits. -/
structure Cluster where
  roles : List String
  inherits : String → String → Bool

/-- The role may execute a function that has this access list. -/
def Cluster.allows (c : Cluster) (acl : List Grantee) (role : String) : Prop :=
  .everyone ∈ acl ∨ ∃ g, .role g ∈ acl ∧ (g = role ∨ c.inherits role g = true)

/-- `array_agg`, which is NULL where there is no row. -/
def arrayAgg (rows : List String) : Option (List String) := if rows = [] then none else some rows

/-- The text of the `GRANT`; `@extschema@` is the schema of the extension. -/
def grantText (extschema : String) (f : Recreated) (names : List String) : String :=
  "GRANT EXECUTE ON FUNCTION " ++ extschema ++ "." ++ f.name ++
    "(integer, varchar, varchar, varchar, integer, varchar, varchar, varchar, boolean) TO " ++
    ",".intercalate names ++ ";"

/-- The row of `amqp_preserve_privs_temp` for a function. -/
def preserved (extschema : String) (before : Privileges) (f : Recreated) : Option String :=
  (arrayAgg ((before f).map Grantee.bare)).map (grantText extschema f)

/-- The loop over the rows. A text that PostgreSQL does not read as one `GRANT` ends it. -/
def restorePrivileges (reads : String → Option Grant) : List (Option String) → Privileges → Option Privileges
  | [], p => some p
  | none :: rest, p => restorePrivileges reads rest p
  | some text :: rest, p =>
    match reads text with
    | none => none
    | some g => restorePrivileges reads rest (p.grant g)

/-- The access list of a function that was just created. -/
def created (owner : String) : Privileges := fun _ => [.everyone, .role owner]

/-- The update, to its end. -/
def update (reads : String → Option Grant) (extschema owner : String) (before : Privileges) : Option Privileges :=
  restorePrivileges reads [preserved extschema before .autonomousPublish, preserved extschema before .publish]
    (created owner)

/-- The update comes to its end, and the same roles may execute each function as before. -/
def PreservesPrivileges (c : Cluster) (reads : String → Option Grant) (extschema owner : String)
    (before : Privileges) : Prop :=
  ∃ after, update reads extschema owner before = some after ∧
    ∀ f, ∀ role ∈ c.roles, c.allows (after f) role ↔ c.allows (before f) role

/-- PostgreSQL reads each text that the script has written as a `GRANT`. -/
def ReadsTexts (reads : String → Option Grant) (extschema : String) (before : Privileges) : Prop :=
  ∀ f text, preserved extschema before f = some text → (reads text).isSome = true

section Update

variable {c : Cluster} {reads : String → Option Grant} {extschema owner : String} {before : Privileges}

theorem Privileges.mem_grant {p : Privileges} {f : Recreated} {x : Grantee} (h : x ∈ p f) (g : Grant) :
    x ∈ p.grant g f := by
  unfold Privileges.grant
  split
  · exact List.mem_append_left _ h
  · exact h

/-- A `GRANT` takes nothing away. -/
theorem restorePrivileges_mem {texts : List (Option String)} {p after : Privileges} {f : Recreated} {x : Grantee}
    (hrun : restorePrivileges reads texts p = some after) (h : x ∈ p f) : x ∈ after f := by
  induction texts generalizing p with
  | nil =>
    obtain rfl : p = after := Option.some.inj hrun
    exact h
  | cons text rest ih =>
    unfold restorePrivileges at hrun
    cases text with
    | none => exact ih hrun h
    | some text =>
      dsimp only at hrun
      cases hg : reads text with
      | none => simp [hg] at hrun
      | some g =>
        rw [hg] at hrun
        exact ih hrun (p.mem_grant h g)

/-- The loop comes to its end when PostgreSQL reads every text. -/
theorem restorePrivileges_isSome {texts : List (Option String)} {p : Privileges} :
    (restorePrivileges reads texts p).isSome = true ↔ ∀ text, some text ∈ texts → (reads text).isSome = true := by
  induction texts generalizing p with
  | nil => simp [restorePrivileges]
  | cons text rest ih =>
    unfold restorePrivileges
    cases text with
    | none => simpa using ih
    | some text =>
      dsimp only
      cases hg : reads text with
      | none => simp [hg]
      | some g => simp [hg, ih]

theorem update_isSome : (update reads extschema owner before).isSome = true ↔ ReadsTexts reads extschema before := by
  unfold update ReadsTexts
  rw [restorePrivileges_isSome]
  refine ⟨fun h f text ht => h text ?_, fun h text ht => ?_⟩
  · cases f <;> simp [ht]
  · rcases List.mem_cons.mp ht with ht | ht
    · exact h _ _ ht.symm
    · exact h _ _ (List.mem_singleton.mp ht).symm

/-- After the update every role may execute the functions: nothing revokes what `PUBLIC` has
been granted by `CREATE FUNCTION`. -/
theorem update_allows {after : Privileges} (h : update reads extschema owner before = some after) (f : Recreated)
    (role : String) : c.allows (after f) role :=
  .inl (restorePrivileges_mem h (by simp [created]))

/-- The privileges are preserved exactly when every role could execute both functions before
the update, and PostgreSQL reads the texts as what they were meant to be. -/
theorem update_preserves_iff : PreservesPrivileges c reads extschema owner before ↔
    ReadsTexts reads extschema before ∧ ∀ f, ∀ role ∈ c.roles, c.allows (before f) role := by
  constructor
  · rintro ⟨after, hrun, hsame⟩
    refine ⟨update_isSome.mp (by rw [hrun]; rfl), fun f role hrole => ?_⟩
    exact (hsame f role hrole).mp (update_allows hrun f role)
  · rintro ⟨hread, hall⟩
    obtain ⟨after, hrun⟩ := Option.isSome_iff_exists.mp (update_isSome.mpr hread)
    refine ⟨after, hrun, fun f role hrole => ?_⟩
    exact ⟨fun _ => hall f role hrole, fun _ => update_allows hrun f role⟩

end Update

/-- A role that the access lists name, and one that they do not. -/
def twoRoles : Cluster := ⟨["app", "guest"], fun _ _ => false⟩

/-- `PUBLIC` was revoked, and one role was granted. -/
def onlyApp : Privileges := fun _ => [.role "app"]

/-- PostgreSQL on the two texts that the script writes for these. -/
def readsOnlyApp (text : String) : Option Grant :=
  if text = grantText "amqp" .publish ["app"] then some ⟨.publish, [.role "app"]⟩
  else if text = grantText "amqp" .autonomousPublish ["app"] then some ⟨.autonomousPublish, [.role "app"]⟩
  else none

/-- The update comes to its end, and then a role may publish that could not before. -/
theorem revoked_is_granted :
    (∃ after, update readsOnlyApp "amqp" "app" onlyApp = some after ∧ twoRoles.allows (after .publish) "guest") ∧
    ¬ PreservesPrivileges twoRoles readsOnlyApp "amqp" "app" onlyApp := by
  have hread : ReadsTexts readsOnlyApp "amqp" onlyApp := by
    intro f text ht
    have ht : text = grantText "amqp" f ["app"] := (Option.some.inj ht).symm
    unfold readsOnlyApp
    cases f with
    | publish =>
      rw [ht, if_pos rfl]
      rfl
    | autonomousPublish =>
      rw [ht]
      split
      · rfl
      · rw [if_pos rfl]
        rfl
  obtain ⟨after, hrun⟩ := Option.isSome_iff_exists.mp (update_isSome.mpr hread)
  refine ⟨⟨after, hrun, update_allows hrun _ _⟩, ?_⟩
  rintro ⟨after', hrun', hsame⟩
  have hguest : twoRoles.allows (onlyApp .publish) "guest" :=
    (hsame .publish "guest" (by simp [twoRoles])).mp (update_allows hrun' _ _)
  simp [Cluster.allows, onlyApp, twoRoles] at hguest

end PgAmqp
