/-
# The errors of the LDAP operations

`src/vkldap/errors.rs`: the error type, its text, the two classifiers that
the reply callback branches on, and the choice `handle_ldap_error!` makes
between a connection error and the error of the operation.
-/
import Mathlib.Data.List.Infix

namespace ValkeyLdap

/-- The variants of `ldap3::LdapError` the module tells apart; `other` is any
of the rest (I/O, timeout, end of stream, ...). -/
inductive LdapErrorKind
  | ldapResult (rc : ℕ)
  | filterParsing
  | decodingUTF8
  | invalidScopeString
  | addNoValues
  | adapterInit
  | other
  deriving DecidableEq, Repr

/-- `ldap3::LdapError`: its variant and what its `Display` prints. -/
structure LdapError where
  kind : LdapErrorKind
  text : String
  deriving DecidableEq, Repr

/-- `VkLdapError`. The I/O and TLS errors are kept as their text. -/
inductive VkLdapError
  | ioError (msg : String) (err : String)
  | noTLSKeyPathSet
  | tlsError (msg : String) (err : String)
  | ldapBindError (err : LdapError)
  | ldapAdminBindError (err : LdapError)
  | ldapSearchError (err : LdapError)
  | ldapConnectionError (err : LdapError)
  | ldapServerPingError (err : LdapError)
  | noLdapEntryFound (filter : String)
  | multipleEntryFound (filter : String)
  | invalidDNAttribute (attr : String)
  | noServerConfigured
  | noHealthyServerAvailable
  | failedToStopFailuredDetectorThread
  | failedToShutdownJobScheduler
  | failedToSendJobToScheduler (errmsg : String)
  | schedulerNotReady
  deriving DecidableEq, Repr

/-- `type Result<T> = std::result::Result<T, VkLdapError>`. -/
abbrev Result (α : Type) := Except VkLdapError α

/-- The text of the error without NUL characters. -/
def ldapErrorToString (ldapErr : LdapError) : String :=
  String.ofList (ldapErr.text.toList.filter (· ≠ Char.ofNat 0))

/-- `str::to_lowercase`, then `contains`, for an ASCII needle without the
letters `i` and `k`, the only ones a non-ASCII character lowers to. -/
def lowercaseContains (text needle : String) : Bool :=
  decide (needle.toList <:+: text.toList.map Char.toLower)

namespace VkLdapError

/-- The error says that the user does not exist in LDAP. -/
def isUserNotFound : VkLdapError → Bool
  | noLdapEntryFound _ => true
  | ldapBindError ldapErr =>
    match ldapErr.kind with
    | .ldapResult 32 => true
    | .ldapResult 49 =>
      let errText := ldapErrorToString ldapErr
      lowercaseContains errText " data 525" || lowercaseContains errText "user not found" ||
        lowercaseContains errText "no such object"
    | _ => false
  | _ => false

/-- The error says that no LDAP server could be asked. -/
def isServerUnavailable : VkLdapError → Bool
  | noHealthyServerAvailable => true
  | ldapConnectionError _ => true
  | noServerConfigured => true
  | schedulerNotReady => true
  | _ => false

/-- `Display`. -/
protected def toString : VkLdapError → String
  | noTLSKeyPathSet =>
    "no TLS key path specified. Please set the path for ldap.tls_key_path config"
  | ioError msg ioerr => msg ++ ": " ++ ioerr
  | tlsError msg tlserr => msg ++ ": " ++ tlserr
  | ldapBindError ldaperr => "error in bind operation: " ++ ldapErrorToString ldaperr
  | ldapAdminBindError ldaperr => "error in binding admin user: " ++ ldapErrorToString ldaperr
  | ldapSearchError ldaperr => "failed to search ldap user: " ++ ldapErrorToString ldaperr
  | ldapConnectionError ldaperr => "LDAP connection failure: " ++ ldapErrorToString ldaperr
  | ldapServerPingError ldaperr =>
    "failed to run WhoAmI command on the ldap server: " ++ ldapErrorToString ldaperr
  | noLdapEntryFound filter => "search filter '" ++ filter ++ "' returned no entries"
  | multipleEntryFound filter => "search filter '" ++ filter ++ "' returned multiple entries"
  | invalidDNAttribute attr =>
    "the user entry does not have the '" ++ attr ++ "' attribute to get the user DN"
  | noServerConfigured =>
    "no server set in configuration. Please set ldap.servers config option"
  | noHealthyServerAvailable =>
    "all servers set in configuration are unhealthy. Please check the logs for more information"
  | failedToStopFailuredDetectorThread =>
    "failed to wait for the failure detector thread to finish"
  | failedToShutdownJobScheduler =>
    "failed to shutdown job scheduler. Please check the logs for more information"
  | failedToSendJobToScheduler errmsg => "failed to send job to scheduler: " ++ errmsg
  | schedulerNotReady => "LDAP scheduler is not ready. Module may still be initializing"

/-- The errors that mean the connection is broken: all but those a server or
the client library answers with on a working one. -/
def isLdapConnectionError (err : LdapError) : Bool :=
  match err.kind with
  | .ldapResult _ | .filterParsing | .decodingUTF8 | .invalidScopeString | .addNoValues
  | .adapterInit => false
  | .other => true

/-- The two classifiers exclude each other, so the order in which the reply
callback asks them does not matter. -/
theorem not_unavailable_of_notFound {err : VkLdapError} (h : err.isUserNotFound = true) :
    err.isServerUnavailable = false := by
  cases err <;> simp [isUserNotFound, isServerUnavailable] at h ⊢

end VkLdapError

/-- `handle_ldap_error!` on an answer of the client library: the result code of
the answer is judged by `success()`, so a refusal arrives here as a
`LdapResult` error; an error of the library becomes a connection error or the
error of the operation. -/
def handleLdapError {α : Type} (expr : Except LdapError α) (errtype : LdapError → VkLdapError) :
    Result α :=
  match expr with
  | .ok res => .ok res
  | .error err =>
    if VkLdapError.isLdapConnectionError err then .error (.ldapConnectionError err)
    else .error (errtype err)

end ValkeyLdap
