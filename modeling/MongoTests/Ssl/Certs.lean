import Mathlib.Data.String.Basic
import MongoTests.Lib.Dict

/-!
# Definitions of test certificates

`mkcert.py` reads the definitions from a configuration, checks their keys, and makes each
certificate from its definition.

* `Cert`: a definition that `validate_config` lets through.
* `issuedBy`, `appended`: what `sign_cert` and `process_cert` take from other certificates.
* `Needs`: a certificate is issued by a name, or has it appended.
-/

namespace MongoTests.Ssl

open MongoTests.Lib

/-- A value of a definition: the keys of a mapping, and of the rest only whether it is true. -/
inductive Value
  | text (s : String)
  | list (items : List String)
  | dict (keys : List String)
  | other (truth : Bool)
  deriving DecidableEq

namespace Value

def truth : Value → Bool
  | text s => s ≠ ""
  | list items => items ≠ []
  | dict keys => keys ≠ []
  | other b => b

/-- What `for x in value` goes through: a text is read character by character. -/
def iterate : Value → List String
  | text s => s.toList.map String.singleton
  | list items => items
  | dict keys => keys
  | other _ => []

def isText : Value → Bool
  | text _ => true
  | _ => false

def isNames : Value → Bool
  | text _ | list _ => true
  | _ => false

end Value

/-- `permissible` of `validate_config`. -/
def permissible : List String :=
  ["name", "description", "Subject", "Issuer", "append_cert", "extensions", "passphrase",
    "output_path", "hash", "key_type", "explicit_subject", "serial", "not_before", "not_after",
    "pkcs1", "pkcs12"]

structure Cert where
  entries : Dict String Value
  name : String
  named : entries.get "name" = some (.text name)
  known : ∀ key ∈ entries.keys, key ∈ permissible
  /-- `Issuer` is one name. -/
  issuerText : ∀ v ∈ entries.get "Issuer", v.isText = true
  /-- `append_cert` is one name or a list of names. -/
  appendNames : ∀ v ∈ entries.get "append_cert", v.isNames = true

namespace Cert

variable (c : Cert)

def get (key : String) : Option Value := c.entries.get key

/-- `cert.get(key, [])`, where a loop goes through it. -/
def iterate (key : String) : List String :=
  match c.get key with
  | some v => v.iterate
  | none => []

/-- `cert.get('Issuer')` -/
def issuer : Option String :=
  match c.get "Issuer" with
  | some (.text s) => some s
  | _ => none

/-- The names for which `process_cert` has a function of its own. -/
def specialNames : List String :=
  ["client-multivalue-rdn.pem", "ecdsa-ca.pem", "ecdsa-client.pem", "ecdsa-server.pem"]

/-- `process_cert` creates the certificate, so that `sign_cert` signs it. -/
def signed : Bool := c.name ∉ specialNames ∧ (c.get "Subject").any Value.truth

/-- The certificate that signs this one, if it is not this one itself. -/
def issuedBy : Option String :=
  match c.issuer with
  | some s => if s = "self" then none else some s
  | none => if c.signed then some "ca.pem" else none

/-- `append_certs` of `process_cert`. -/
def appended : List String :=
  match c.get "append_cert" with
  | some (.text s) => [s]
  | some v => v.iterate
  | none => []

/-- The certificate is signed by the one of this name, or has it appended. -/
def Needs (name : String) : Prop := c.issuedBy = some name ∨ name ∈ c.appended

/-- A key that is not permissible is not there. -/
theorem get_eq_none {key : String} (h : key ∉ permissible) : c.get key = none := by
  cases hget : c.get key with
  | none => rfl
  | some v => exact absurd (c.known key (Dict.mem_keys.mpr ⟨v, hget⟩)) h

end Cert

/-! ## A certificate and its issuer -/

/-- `{name: ca.pem, Subject: {CN: …}, Issuer: self}` -/
def caCert : Cert where
  entries := ((Dict.empty.set "name" (.text "ca.pem")).set "Subject" (.dict ["CN"])).set "Issuer"
    (.text "self")
  name := "ca.pem"
  named := by decide
  known := by decide
  issuerText := by decide
  appendNames := by decide

/-- `{name: server.pem, Subject: {CN: …}, Issuer: ca.pem}` -/
def serverCert : Cert where
  entries := ((Dict.empty.set "name" (.text "server.pem")).set "Subject" (.dict ["CN"])).set "Issuer"
    (.text "ca.pem")
  name := "server.pem"
  named := by decide
  known := by decide
  issuerText := by decide
  appendNames := by decide

end MongoTests.Ssl
