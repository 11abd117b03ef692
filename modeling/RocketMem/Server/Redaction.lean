import RocketMem.Framework.AsciiCase
import RocketMem.Server.Handlers

namespace RocketMem

open List

def hexDigit (n : Nat) : UInt8 := UInt8.ofNat (if n < 10 then 48 + n else 87 + n)

/-- `\xNN`, for a code point of two digits. -/
def hexEscape (b : UInt8) : Bytes := txt "\\x" ++ [hexDigit (b.toNat / 16), hexDigit (b.toNat % 16)]

/-- The characters of a text with those that `is_log_unsafe` names escaped: the control characters
(U+0080 to U+009F are `C2 80` to `C2 9F`) and the two line separators U+2028 and U+2029. -/
def escapeUnsafe : Bytes → Bytes
  | 0xC2 :: b :: rest =>
    (if 0x80 ≤ b.toNat ∧ b.toNat ≤ 0x9F then hexEscape b else [0xC2, b]) ++ escapeUnsafe rest
  | 0xE2 :: 0x80 :: b :: rest =>
    (if b = 0xA8 then txt "\\x2028" else if b = 0xA9 then txt "\\x2029" else [0xE2, 0x80, b]) ++
      escapeUnsafe rest
  | b :: rest => (if b.toNat < 32 ∨ b = 127 then hexEscape b else [b]) ++ escapeUnsafe rest
  | [] => []

/-- `escape_for_log`: the first `cap` bytes as text, and how many were left out. -/
def escapeForLog (bytes : Bytes) (cap : Nat) : Bytes :=
  let shown := bytes.take cap
  let dropped := bytes.length - shown.length
  escapeUnsafe (fromUtf8Lossy shown) ++
    if 0 < dropped then [0xE2, 0x80, 0xA6] ++ txt "(" ++ showNat dropped ++ txt " more)" else []

def fmtValue (bytes : Bytes) (cap : Nat) : Bytes := escapeForLog bytes cap

def isSensitive (cmd : Bytes) (args : List Bytes) : Bool :=
  if cmd = txt "AUTH" then true
  else if cmd = txt "HELLO" then args.any fun a => asciiUpper a = txt "AUTH"
  else if cmd = txt "ACL" then
    args.head?.any fun sub => asciiUpper sub = txt "SETUSER" || asciiUpper sub = txt "GETUSER"
  else if cmd = txt "REPLICAOF" then args[2]?.any fun a => asciiUpper a = txt "AUTH"
  else false

def redacted : Bytes := txt "<redacted>"

def redactArgs (cmd : Bytes) (args : List Bytes) (cap : Nat) : Bytes :=
  if isSensitive cmd args then redacted else joinWords (args.map (fmtValue · cap))

def commandArgs : Frame → List Bytes
  | .array items => (items.drop 1).filterMap Frame.bulk?
  | _ => []

/-- `command_key_and_arity`, which the stored slow-log entry is made from. -/
def commandKeyAndArity : Frame → Option Bytes × Nat
  | .array items =>
    if (items.head?.bind Frame.bulk?).any fun name => asciiUpper name = txt "AUTH" then
      (none, items.length - 1)
    else (items[1]?.bind Frame.bulk?, items.length - 1)
  | _ => (none, 0)

/-- Where the first key of a command stands; `key_spec` knows no keys of an unknown command. -/
def firstKeyIndex (name : Bytes) : Option Nat :=
  match (CommandName.ofText name).elim KeySpec.none keySpec with
  | .none => none
  | .second => some 2
  | .first | .all | .everyOther | .firstTwo | .allButLast => some 1

def loggedKey (frame : Frame) (name : Bytes) : Option Bytes :=
  (firstKeyIndex name).bind fun index =>
    match frame with
    | .array items => items[index]?.bind Frame.bulk?
    | _ => none

def loggedName (frame : Frame) : Bytes := (commandNameUpper frame).getD []

/-- Two tokens of `ACL SETUSER` that are the same or set different passwords. -/
def SameToken (t t' : Bytes) : Prop := t = t' ∨ ∃ pw pw', t = 62 :: pw ∧ t' = 62 :: pw'

/-- Frames that differ only in passwords, one constructor for each place that the server takes a
password from. The tests of the keywords are those of the commands' own handlers. -/
inductive SameButPasswords : Frame → Frame → Prop
  | auth {raw pw pw' : Bytes} (h : asciiUpper raw = txt "AUTH") :
      SameButPasswords (.command [raw, pw]) (.command [raw, pw'])
  | authUser {raw user pw pw' : Bytes} (h : asciiUpper raw = txt "AUTH") :
      SameButPasswords (.command [raw, user, pw]) (.command [raw, user, pw'])
  | hello {raw version keyword user pw pw' : Bytes} (h : asciiUpper raw = txt "HELLO")
      (hkeyword : asciiUpper keyword = txt "AUTH") :
      SameButPasswords (.command [raw, version, keyword, user, pw])
        (.command [raw, version, keyword, user, pw'])
  | setuser {raw sub username : Bytes} {tokens tokens' : List Bytes}
      (h : asciiUpper raw = txt "ACL") (hsub : upperWord sub = txt "SETUSER")
      (htokens : List.Forall₂ SameToken tokens tokens') :
      SameButPasswords (.command (raw :: sub :: username :: tokens))
        (.command (raw :: sub :: username :: tokens'))
  | replicaof {raw host port keyword user pw pw' : Bytes} (h : asciiUpper raw = txt "REPLICAOF")
      (hkeyword : asciiUpper keyword = txt "AUTH") :
      SameButPasswords (.command [raw, host, port, keyword, user, pw])
        (.command [raw, host, port, keyword, user, pw'])

structure LoggedAlike (cap : Nat) (f g : Frame) : Prop where
  args : redactArgs (loggedName f) (commandArgs f) cap =
    redactArgs (loggedName g) (commandArgs g) cap
  key : loggedKey f (loggedName f) = loggedKey g (loggedName g)
  slowlog : commandKeyAndArity f = commandKeyAndArity g

theorem commandArgs_command (word : Bytes) (words : List Bytes) :
    commandArgs (.command (word :: words)) = words := by
  rw [Frame.command, map_cons, commandArgs, drop_succ_cons, drop_zero, filterMap_map]
  exact filterMap_some

theorem loggedName_command {raw name : Bytes} (words : List Bytes) (h : asciiUpper raw = name)
    (hlen : name.length ≤ maxCommandNameLen) (hascii : isAscii name = true) :
    loggedName (.command (raw :: words)) = name := by
  have hname : commandNameUpper (.command (raw :: words)) = some name :=
    upperName_of_asciiUpper h hlen hascii
  rw [loggedName, hname, Option.getD_some]

theorem asciiUpper_of_upperWord {raw word : Bytes} (h : upperWord raw = word)
    (hascii : isAscii word = true) : asciiUpper raw = word := by
  have hlossy : isAscii (fromUtf8Lossy raw) = true := by
    rw [← isAscii_asciiUpper, ← upperWord, h, hascii]
  rw [← h, upperWord, fromUtf8Lossy_ascii hlossy]

theorem loggedAlike_of_sensitive {raw name : Bytes} {words words' : List Bytes} (cap : Nat)
    (h : asciiUpper raw = name) (hlen : name.length ≤ maxCommandNameLen)
    (hascii : isAscii name = true) (hkeyless : firstKeyIndex name = none)
    (hsensitive : isSensitive name words = true) (hsensitive' : isSensitive name words' = true)
    (hslow : commandKeyAndArity (.command (raw :: words)) =
      commandKeyAndArity (.command (raw :: words'))) :
    LoggedAlike cap (.command (raw :: words)) (.command (raw :: words')) where
  args := by
    rw [loggedName_command words h hlen hascii, loggedName_command words' h hlen hascii,
      commandArgs_command, commandArgs_command, redactArgs, redactArgs, if_pos hsensitive,
      if_pos hsensitive']
  key := by
    rw [loggedName_command words h hlen hascii, loggedName_command words' h hlen hascii, loggedKey,
      loggedKey, hkeyless]
    rfl
  slowlog := hslow

theorem commandKeyAndArity_eq (raw first : Bytes) {words words' : List Bytes}
    (hlen : words.length = words'.length) :
    commandKeyAndArity (.command (raw :: first :: words)) =
      commandKeyAndArity (.command (raw :: first :: words')) := by
  simp only [commandKeyAndArity, Frame.command, map_cons, length_cons, length_map,
    hlen, head?_cons, getElem?_cons_succ, getElem?_cons_zero]

theorem commandKeyAndArity_auth {raw : Bytes} (h : asciiUpper raw = txt "AUTH")
    (words : List Bytes) : commandKeyAndArity (.command (raw :: words)) = (none, words.length) := by
  have hname : ((Frame.bulk raw :: words.map .bulk).head?.bind Frame.bulk?).any
      (fun name => asciiUpper name = txt "AUTH") = true := decide_eq_true h
  rw [Frame.command, map_cons, commandKeyAndArity, if_pos hname, length_cons,
    length_map, Nat.add_sub_cancel]

section

variable {argon argon' : Argon2} {acl : AclStore} {session : Session} {frame : Frame}

theorem sameButPasswords_of_auth
    (h : handleAuth argon acl session frame ≠ handleAuth argon' acl session frame) :
    SameButPasswords frame frame := by
  unfold handleAuth at h
  split at h
  · next raw args =>
    by_cases hraw : asciiUpper raw = txt "AUTH"
    · rw [if_neg (not_not.mpr hraw), if_neg (not_not.mpr hraw)] at h
      split at h
      · exact .auth hraw
      · exact absurd rfl h
      · exact .authUser hraw
      · exact absurd rfl h
      · exact absurd rfl h
    · rw [if_pos hraw, if_pos hraw] at h
      exact absurd rfl h
  · exact absurd rfl h

theorem extra_of_negotiate {clientId : UInt64} {role mode : Bytes} {protocol : Protocol}
    {extra : List Frame}
    (h : negotiate argon acl session clientId role mode protocol extra ≠
      negotiate argon' acl session clientId role mode protocol extra) :
    ∃ keyword user pw, extra = [.bulk keyword, .bulk user, .bulk pw] ∧
      asciiUpper keyword = txt "AUTH" := by
  have hextra : applyHelloExtraArgs argon acl session extra ≠
      applyHelloExtraArgs argon' acl session extra := by
    intro heq
    rw [negotiate, negotiate, heq] at h
    exact h rfl
  unfold applyHelloExtraArgs at hextra
  split at hextra
  · exact absurd rfl hextra
  · next keyword user pw =>
    by_cases hkeyword : asciiUpper keyword = txt "AUTH"
    · exact ⟨keyword, user, pw, rfl, hkeyword⟩
    · rw [if_pos hkeyword, if_pos hkeyword] at hextra
      exact absurd rfl hextra
  · exact absurd rfl hextra

theorem sameButPasswords_of_hello {clientId : UInt64} {role mode : Bytes}
    (h : handleHello argon acl session clientId role mode frame ≠
      handleHello argon' acl session clientId role mode frame) :
    SameButPasswords frame frame := by
  unfold handleHello at h
  split at h
  · next raw args =>
    by_cases hraw : asciiUpper raw = txt "HELLO"
    · rw [if_neg (not_not.mpr hraw), if_neg (not_not.mpr hraw)] at h
      split at h
      · exact absurd rfl h
      · next version extra =>
        have hnegotiate : ∃ protocol,
            negotiate argon acl session clientId role mode protocol extra ≠
              negotiate argon' acl session clientId role mode protocol extra := by
          by_contra hsame
          push Not at hsame
          rw [hsame, hsame] at h
          exact h rfl
        obtain ⟨protocol, hprotocol⟩ := hnegotiate
        obtain ⟨keyword, user, pw, rfl, hkeyword⟩ := extra_of_negotiate hprotocol
        exact .hello hraw hkeyword
      · exact absurd rfl h
    · rw [if_pos hraw, if_pos hraw] at h
      exact absurd rfl h
  · exact absurd rfl h

theorem sameButPasswords_of_acl {describe : AclStore → Bytes → List Frame → Frame}
    (h : handleAcl argon describe acl session frame ≠ handleAcl argon' describe acl session frame) :
    SameButPasswords frame frame := by
  unfold handleAcl at h
  split at h
  · next raw args =>
    by_cases hraw : asciiUpper raw = txt "ACL"
    · rw [if_neg (not_not.mpr hraw), if_neg (not_not.mpr hraw)] at h
      split at h
      · next sub args =>
        dsimp only at h
        by_cases hsub : upperWord sub = txt "SETUSER"
        · rw [if_pos hsub, if_pos hsub] at h
          unfold aclSetuser at h
          split at h
          · next username rest =>
            split at h
            · exact absurd rfl h
            · next tokens htokens =>
              have hrest : frameToArgs (.array rest) = .ok tokens := by
                simp only [frameToArgs, htokens]
              cases frameToArgs_ok hrest
              exact .setuser hraw hsub (forall₂_same.mpr fun t _ => .inl rfl)
          · exact absurd rfl h
        · rw [if_neg hsub, if_neg hsub] at h
          exact absurd rfl h
      · exact absurd rfl h
    · rw [if_pos hraw, if_pos hraw] at h
      exact absurd rfl h
  · exact absurd rfl h

end

theorem SameButPasswords.loggedAlike {f g : Frame} (h : SameButPasswords f g) (cap : Nat) :
    LoggedAlike cap f g := by
  cases h with
  | @auth raw pw pw' h | @authUser raw user pw pw' h =>
    refine loggedAlike_of_sensitive cap h (by decide) (by decide) (by decide) rfl rfl ?_
    rw [commandKeyAndArity_auth h, commandKeyAndArity_auth h]
    rfl
  | @hello raw version keyword user pw pw' h hkeyword =>
    have hsensitive (password : Bytes) :
        isSensitive (txt "HELLO") [version, keyword, user, password] = true :=
      any_eq_true.mpr ⟨keyword, by simp, decide_eq_true hkeyword⟩
    exact loggedAlike_of_sensitive cap h (by decide) (by decide) (by decide) (hsensitive pw)
      (hsensitive pw') (commandKeyAndArity_eq raw version rfl)
  | @setuser raw sub username tokens tokens' h hsub htokens =>
    have hword := asciiUpper_of_upperWord hsub (by decide)
    have hsensitive (rest : List Bytes) :
        isSensitive (txt "ACL") (sub :: username :: rest) = true :=
      Bool.or_eq_true_iff.mpr (.inl (decide_eq_true hword))
    refine loggedAlike_of_sensitive cap h (by decide) (by decide) (by decide) (hsensitive tokens)
      (hsensitive tokens') (commandKeyAndArity_eq raw sub ?_)
    rw [length_cons, length_cons, htokens.length_eq]
  | @replicaof raw host port keyword user pw pw' h hkeyword =>
    have hsensitive (password : Bytes) :
        isSensitive (txt "REPLICAOF") [host, port, keyword, user, password] = true :=
      decide_eq_true hkeyword
    exact loggedAlike_of_sensitive cap h (by decide) (by decide) (by decide) (hsensitive pw)
      (hsensitive pw') (commandKeyAndArity_eq raw host rfl)

/-- Passwords do not reach the logs: frames that differ only in them give the same argument text
under every cap, the same key and the same slow-log entry, and these are all the frames from which
`AUTH`, `HELLO` or `ACL` hands a password to the hashing functions. -/
theorem passwords_not_logged :
    (∀ f g cap, SameButPasswords f g → LoggedAlike cap f g) ∧
    ∀ frame acl session clientId role mode describe argon argon',
      (handleAuth argon acl session frame ≠ handleAuth argon' acl session frame ∨
        handleHello argon acl session clientId role mode frame ≠
          handleHello argon' acl session clientId role mode frame ∨
        handleAcl argon describe acl session frame ≠ handleAcl argon' describe acl session frame) →
      SameButPasswords frame frame := by
  refine ⟨fun f g cap h => h.loggedAlike cap, ?_⟩
  intro frame acl session clientId role mode describe argon argon' h
  rcases h with h | h | h
  · exact sameButPasswords_of_auth h
  · exact sameButPasswords_of_hello h
  · exact sameButPasswords_of_acl h

theorem passwords_not_logged_replicaof :
    LoggedAlike 4
      (.command [txt "replicaof", txt "10.0.0.1", txt "6379", txt "Auth", txt "u", txt "one"])
      (.command [txt "replicaof", txt "10.0.0.1", txt "6379", txt "Auth", txt "u", txt "other"]) :=
  passwords_not_logged.1 _ _ 4 (.replicaof (by decide) (by decide))

end RocketMem
