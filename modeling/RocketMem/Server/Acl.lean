import RocketMem.Engine.Glob
import RocketMem.Framework.HashMap

namespace RocketMem

inductive AclRule where
  | allCommands
  | noCommands
  | allowCommand (name : Bytes)
  | denyCommand (name : Bytes)
  | allKeys
  | keyPattern (pattern : Bytes)
  deriving DecidableEq, Repr

/-- What one argument of `ACL SETUSER` can mean. -/
inductive AclToken where
  | on
  | off
  | password (pw : Bytes)
  | noPass
  | rule (r : AclRule)
  deriving DecidableEq, Repr

inductive AclError where
  | syntaxError (token : Bytes)
  deriving DecidableEq, Repr

/-- The error's text; line ends in the token are made visible. -/
def AclError.text : AclError → Bytes
  | syntaxError token =>
    let sanitized := token.flatMap fun b =>
      if b = 13 then txt "\\r" else if b = 10 then txt "\\n" else [b]
    txt "ERR syntax error at '" ++ sanitized ++ txt "'"

def parsePrefixed (text : Bytes) : Except AclError AclToken :=
  match text with
  | 62 :: pw => if pw.isEmpty then .error (.syntaxError text) else .ok (.password pw)
  | 43 :: name =>
    if name.isEmpty then .error (.syntaxError text)
    else .ok (.rule (.allowCommand (asciiUpper name)))
  | 45 :: name =>
    if name.isEmpty then .error (.syntaxError text)
    else .ok (.rule (.denyCommand (asciiUpper name)))
  | 126 :: pattern =>
    if pattern.isEmpty then .error (.syntaxError text) else .ok (.rule (.keyPattern pattern))
  | _ => .error (.syntaxError text)

/-- `parse_token`: one word of an ACL rule. -/
def parseToken (raw : Bytes) : Except AclError AclToken :=
  if validUtf8 raw = false then .error (.syntaxError (fromUtf8Lossy raw))
  else
    let lower := asciiLower raw
    if lower = txt "on" then .ok .on
    else if lower = txt "off" then .ok .off
    else if lower = txt "nopass" then .ok .noPass
    else if lower = txt "allcommands" then .ok (.rule .allCommands)
    else if lower = txt "nocommands" then .ok (.rule .noCommands)
    else if lower = txt "allkeys" then .ok (.rule .allKeys)
    else if raw = txt "+@all" then .ok (.rule .allCommands)
    else if raw = txt "-@all" then .ok (.rule .noCommands)
    else if raw.take 2 = txt "+@" ∨ raw.take 2 = txt "-@" then .error (.syntaxError raw)
    else if raw = txt "~*" then .ok (.rule .allKeys)
    else parsePrefixed raw

def validateUsername (username : Bytes) : Except AclError Unit :=
  if username.isEmpty ∨ 32 ∈ username ∨ 13 ∈ username ∨ 10 ∈ username then
    .error (.syntaxError username)
  else .ok ()

structure AclUser where
  username : Bytes
  passwordHash : Option Bytes
  enabled : Bool
  rules : List AclRule
  deriving DecidableEq, Repr

namespace AclUser

/-- The last rule that speaks of the command decides. -/
def commandAllowed (u : AclUser) (command : Bytes) : Bool :=
  u.rules.foldl
    (fun allowed rule =>
      match rule with
      | .allCommands => true
      | .noCommands => false
      | .allowCommand c => if c = command then true else allowed
      | .denyCommand c => if c = command then false else allowed
      | _ => allowed)
    false

def keyAllowed (u : AclUser) (key : Bytes) : Bool :=
  u.rules.any fun rule =>
    match rule with
    | .allKeys => true
    | .keyPattern p => globMatch p key
    | _ => false

def isAllowed (u : AclUser) (command : Bytes) (keys : List Bytes) : Bool :=
  u.commandAllowed command && keys.all u.keyAllowed

end AclUser

/-- The users, and whether one has ever been configured: deleting them all does not clear it. -/
structure AclStore where
  users : HashMap Bytes AclUser
  everConfigured : Bool

/-- Password hashing with a random salt, as one call meets it. -/
structure Argon2 where
  hash : Bytes → Bytes
  verify : Bytes → Bytes → Bool

def applyTokens (base : AclUser) (tokens : List AclToken) : AclUser :=
  tokens.foldl
    (fun u token =>
      match token with
      | .on => { u with enabled := true }
      | .off => { u with enabled := false }
      | .noPass => { u with passwordHash := none }
      | .password hash => { u with passwordHash := some hash }
      | .rule r => { u with rules := u.rules ++ [r] })
    base

namespace AclStore

def new : AclStore := ⟨∅, false⟩

def getUser (acl : AclStore) (username : Bytes) : Option AclUser := acl.users.lookup username

/-- Every token is parsed before any is applied. -/
def setUser (acl : AclStore) (argon : Argon2) (username : Bytes) (rawTokens : List Bytes) :
    Except AclError AclStore := do
  validateUsername username
  let tokens ← rawTokens.mapM parseToken
  let hashed := tokens.map fun
    | .password pw => .password (argon.hash pw)
    | token => token
  let base := (acl.getUser username).getD ⟨username, none, false, []⟩
  return ⟨acl.users.insert username (applyTokens base hashed), true⟩

def delUser (acl : AclStore) (username : Bytes) : Bool × AclStore :=
  ((acl.getUser username).isSome, { acl with users := acl.users.erase username })

/-- An unknown or disabled user fails; one without a password passes with any. -/
def authenticate (acl : AclStore) (argon : Argon2) (username password : Bytes) : Option AclUser :=
  match acl.getUser username with
  | none => none
  | some user =>
    if user.enabled = false then none
    else match user.passwordHash with
      | none => some user
      | some hash => if argon.verify password hash then some user else none

theorem getUser_setUser_of_ne {acl acl' : AclStore} {argon : Argon2} {username other : Bytes}
    {rawTokens : List Bytes} (h : acl.setUser argon username rawTokens = .ok acl')
    (hne : other ≠ username) : acl'.getUser other = acl.getUser other := by
  unfold setUser at h
  simp only [bind, Except.bind, pure, Except.pure] at h
  split at h
  · cases h
  · split at h
    · cases h
    · cases h
      exact Finmap.lookup_insert_of_ne acl.users hne

theorem everConfigured_setUser {acl acl' : AclStore} {argon : Argon2} {username : Bytes}
    {rawTokens : List Bytes} (h : acl.setUser argon username rawTokens = .ok acl') :
    acl'.everConfigured = true := by
  unfold setUser at h
  simp only [bind, Except.bind, pure, Except.pure] at h
  split at h
  · cases h
  · split at h
    · cases h
    · cases h
      rfl

theorem getUser_delUser_of_ne (acl : AclStore) {username other : Bytes} (hne : other ≠ username) :
    (acl.delUser username).2.getUser other = acl.getUser other :=
  Finmap.lookup_erase_ne hne

end AclStore

end RocketMem
