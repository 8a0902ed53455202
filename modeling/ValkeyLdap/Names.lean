/-
# The user that an `AUTH` touches

The reply calls `ACL` with the username as text, invalid bytes replaced, and
authenticates the client with the bytes as they came. The two are the same user
exactly if the bytes are valid UTF-8; otherwise the calls name another user,
whom they set or delete.

Key theorem: `auth_touches_own_user`.
-/
import ValkeyLdap.Permissions

namespace ValkeyLdap

theorem ValkeyString.aclName_eq (username : ValkeyString) :
    username.aclName = Utf8.encode (Utf8.lossy username.bytes) := by
  rw [aclName, Acl.bytes, ValkeyString.toString, String.toList_ofList]

/-- The name that is called is the user's exactly if it is text. -/
theorem ValkeyString.aclName_eq_bytes {username : ValkeyString} :
    username.aclName = username.bytes ↔ Utf8.Valid username.bytes := by
  rw [aclName_eq]
  exact Utf8.encode_lossy

/-- What is called by an ASCII name has it. -/
theorem ValkeyString.bytes_of_aclName {username : ValkeyString} {name : String}
    (h : username.aclName = Acl.bytes name)
    (hname : (name.toList.all fun c => c.toNat < 0x80) = true) :
    username.bytes = Acl.bytes name := by
  rw [aclName_eq] at h
  have htext : Utf8.lossy username.bytes = name.toList := Utf8.encode_injective h
  have hascii : ∀ c ∈ Utf8.lossy username.bytes, c.toNat < 0x80 := by
    rw [htext]
    exact fun c hc => of_decide_eq_true (List.all_eq_true.mp hname c hc)
  rw [← h]
  exact (Utf8.encode_lossy_of_ascii hascii).symm

namespace Auth

open Acl (Table Store User)

variable {ρ σ η : Type} [DecidableEq σ] [DecidableEq η]

/-- A reply changes its own user at most. -/
theorem usersAfter_of_ne {V : Store ρ σ η} {ctx : Configs} {t : Table ρ σ η} {valkey : Valkey}
    {username password : ValkeyString} {privData : Option (Result (List String))}
    {name : List UInt8} (h : name ≠ username.aclName) :
    usersAfter V ctx t valkey username password privData name = t name := by
  rw [usersAfter_eq]
  cases hchanged : changed V ctx t username password privData with
  | none => rfl
  | some t' =>
    obtain ⟨user, rfl⟩ := changed_eq_some hchanged
    exact Function.update_of_ne h _ _

/-- Whatever a reply to this user does, no other user is changed, and the one
that is given rules is the one that the client is authenticated as. -/
def TouchesOwnUser (V : Store ρ σ η) (username : ValkeyString) : Prop :=
  ∀ (ctx : Configs) (t : Table ρ σ η) (valkey : Valkey) (password : ValkeyString)
    (privData : Option (Result (List String))),
    (∀ name, name ≠ username.bytes →
      usersAfter V ctx t valkey username password privData name = t name) ∧
    ∀ name rules user,
      .acl ("SETUSER" :: name :: rules) ∈ (replyOn V ctx t valkey username password privData).1 →
      .authenticateClientWithAclUser user ∈
        (replyOn V ctx t valkey username password privData).1 →
      Acl.bytes name = user.bytes

/-- A wrong password deletes the user that is called. -/
theorem usersAfter_wrongPassword {V : Store ρ σ η} {ctx : Configs} {t : Table ρ σ η}
    {valkey : Valkey} {username password : ValkeyString} (h : V.deletable username.aclName = true) :
    usersAfter V ctx t valkey username password (some (.error (.ldapBindError wrongPassword)))
      username.aclName = none := by
  have hdeletes : deletes ctx username (.ldapBindError wrongPassword) = true := by
    simp [deletes, rejected_wrongPassword.1, rejected_wrongPassword.2]
  rw [usersAfter_eq]
  simp only [changed, hdeletes, if_true, Store.delUser, h, Option.getD_some, Function.update_self]

/-- **An `AUTH` touches only its own user exactly if** the username is valid
UTF-8. All users but `default` can be deleted. -/
theorem auth_touches_own_user (V : Store ρ σ η)
    (hdelete : ∀ name, name ≠ Acl.bytes "default" → V.deletable name = true)
    (username : ValkeyString) : TouchesOwnUser V username ↔ Utf8.Valid username.bytes := by
  rw [← ValkeyString.aclName_eq_bytes]
  constructor
  · intro h
    by_contra hne
    -- a rejection deletes the user that has the name called
    have hname : username.aclName ≠ Acl.bytes "default" := by
      intro hd
      exact hne (hd.trans (ValkeyString.bytes_of_aclName hd rfl).symm)
    have hsame := (h {} (fun _ => some (Acl.newUser V.toRules)) (fun _ => true) bob
      (some (.error (.ldapBindError wrongPassword)))).1 username.aclName hne
    rw [usersAfter_wrongPassword (hdelete _ hname)] at hsame
    cases hsame
  · intro hown ctx t valkey password privData
    refine ⟨fun name hname => usersAfter_of_ne (by rwa [hown]), fun name rules user hset hauth => ?_⟩
    have hname : name = username.toString := by
      rcases authReplyCallback_calls hset with ⟨_, h⟩ | h | h
      · have h := Call.acl.inj h
        simp only [List.cons.injEq, true_and] at h
        exact h.1
      · cases h
      · exact absurd h.symm (delUser_ne_setUser _ _ _)
    have huser : user = username := by
      rcases authReplyCallback_calls hauth with ⟨_, h⟩ | h | h
      · cases h
      · exact Call.authenticateClientWithAclUser.inj h
      · cases h
    rw [hname, huser]
    exact hown

/-- Bob, whose name is ASCII. -/
theorem auth_touches_own_user_bob : TouchesOwnUser plainStore bob :=
  (auth_touches_own_user plainStore (fun name h => by simpa [plainStore] using h) bob).mpr
    ⟨['b', 'o', 'b'], by decide⟩

/-- A byte that begins no character. -/
def invalidName : ValkeyString := ⟨[0xFF]⟩

/-- Its `AUTH` with a wrong password deletes the user whose name is U+FFFD. -/
theorem invalid_name_touches_other :
    ¬ ∀ username : ValkeyString, TouchesOwnUser plainStore username := by
  intro h
  have hsame := (h invalidName {} (fun _ => some (Acl.newUser plainStore.toRules)) (fun _ => true) bob
    (some (.error (.ldapBindError wrongPassword)))).1 invalidName.aclName (by decide)
  rw [usersAfter_wrongPassword (by decide)] at hsame
  cases hsame

end Auth
end ValkeyLdap
