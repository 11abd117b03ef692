import RocketMem.Framework.AsciiCase
import RocketMem.Server.Handlers

namespace RocketMem

open List

section

variable {α β ε : Type} {parts : List (List α)}

theorem splitOn_intercalate_parts [BEq α] [LawfulBEq α] (x : α)
    (hparts : parts ≠ []) : ([x].intercalate parts).splitOn x = parts.flatMap (List.splitOn x) := by
  induction parts with
  | nil => exact absurd rfl hparts
  | cons part rest ih =>
    cases rest with
    | nil => simp
    | cons next rest =>
      have hjoin : [x].intercalate (part :: next :: rest) =
          part ++ x :: [x].intercalate (next :: rest) := by simp [List.intercalate]
      rw [hjoin, flatMap_cons, splitOn_append_cons_self, ih (cons_ne_nil _ _)]

theorem flatMap_splitOn [BEq α] [LawfulBEq α] {x : α}
    (h : ∀ part ∈ parts, x ∉ part) : parts.flatMap (List.splitOn x) = parts := by
  induction parts with
  | nil => rfl
  | cons part rest ih =>
    rw [flatMap_cons, splitOn_eq_singleton (h part mem_cons_self),
      ih fun p hp => h p (mem_cons_of_mem _ hp)]
    rfl

theorem length_le_flatMap_splitOn [BEq α] [LawfulBEq α] (x : α) (parts : List (List α)) :
    parts.length ≤ (parts.flatMap (List.splitOn x)).length := by
  induction parts with
  | nil => exact Nat.le_refl 0
  | cons part rest ih =>
    have hpos := length_pos_of_ne_nil (splitOn_ne_nil x part)
    rw [flatMap_cons, length_append, length_cons]
    omega

theorem not_mem_of_length_flatMap [BEq α] [LawfulBEq α] {x : α}
    (h : (parts.flatMap (List.splitOn x)).length = parts.length) : ∀ part ∈ parts, x ∉ part := by
  induction parts with
  | nil => exact fun _ hp => absurd hp not_mem_nil
  | cons part rest ih =>
    have hrest := length_le_flatMap_splitOn x rest
    rw [flatMap_cons, length_append, length_cons] at h
    have hpos := length_pos_of_ne_nil (splitOn_ne_nil x part)
    intro p hp hx
    rcases mem_cons.mp hp with rfl | hp
    · obtain ⟨front, back, rfl⟩ := append_of_mem hx
      have hfront := length_pos_of_ne_nil (splitOn_ne_nil x front)
      have hback := length_pos_of_ne_nil (splitOn_ne_nil x back)
      rw [splitOn_append_cons_self, length_append] at h
      omega
    · exact ih (by omega) p hp hx

theorem mapM_eq_ok_iff {f : α → Except ε β} {as : List α} {bs : List β} :
    as.mapM f = .ok bs ↔ Forall₂ (fun a b => f a = .ok b) as bs := by
  induction as generalizing bs with
  | nil =>
    rw [forall₂_nil_left_iff, mapM_nil]
    exact ⟨fun h => by cases h; rfl, fun h => by rw [h]; rfl⟩
  | cons a as ih =>
    rw [mapM_cons, forall₂_cons_left_iff]
    constructor
    · intro h
      cases ha : f a with
      | error e => rw [ha] at h; cases h
      | ok b =>
        rw [ha] at h
        cases has : as.mapM f with
        | error e => rw [has] at h; cases h
        | ok rest =>
          rw [has] at h
          cases h
          exact ⟨b, rest, rfl, ih.mp has, rfl⟩
    · rintro ⟨b, rest, ha, hrest, rfl⟩
      rw [ha, ih.mpr hrest]
      rfl

theorem mem_of_mapM {f : α → Except ε β} {as : List α} {bs : List β} (h : as.mapM f = .ok bs)
    {b : β} (hb : b ∈ bs) : ∃ a ∈ as, f a = .ok b := by
  have hall := mapM_eq_ok_iff.mp h
  clear h
  induction hall with
  | nil => exact absurd hb not_mem_nil
  | @cons a b' as bs hab _ ih =>
    rcases mem_cons.mp hb with rfl | hb
    · exact ⟨a, mem_cons_self, hab⟩
    · obtain ⟨a', ha', hfa'⟩ := ih hb
      exact ⟨a', mem_cons_of_mem _ ha', hfa'⟩

end

structure CommandWord (name : Bytes) : Prop where
  valid : validUtf8 name = true
  nonempty : name ≠ []
  noCategory : name.head? ≠ some 64

theorem CommandWord.of_asciiUpper {name name' : Bytes} (h : CommandWord name)
    (hcase : asciiUpper name' = asciiUpper name) : CommandWord name' where
  valid := by rw [← validUtf8_asciiUpper, hcase, validUtf8_asciiUpper, h.valid]
  nonempty := by
    intro hnil
    rw [hnil] at hcase
    exact h.nonempty (asciiUpper_eq_nil.mp hcase.symm)
  noCategory := by
    intro hat
    rw [← head?_asciiUpper (by decide), hcase, head?_asciiUpper (by decide)] at hat
    exact h.noCategory hat

inductive RuleToken : Bytes → AclRule → Prop
  | allCommands (raw : Bytes) : RuleToken raw .allCommands
  | noCommands (raw : Bytes) : RuleToken raw .noCommands
  | allKeys (raw : Bytes) : RuleToken raw .allKeys
  | allow {name : Bytes} (h : CommandWord name) :
      RuleToken (43 :: name) (.allowCommand (asciiUpper name))
  | deny {name : Bytes} (h : CommandWord name) :
      RuleToken (45 :: name) (.denyCommand (asciiUpper name))
  | keys {pattern : Bytes} (hvalid : validUtf8 pattern = true) (hsome : pattern ≠ [])
      (hall : pattern ≠ txt "*") : RuleToken (126 :: pattern) (.keyPattern pattern)

theorem ruleToken_of_parsePrefixed {raw : Bytes} {r : AclRule} (hvalid : validUtf8 raw = true)
    (hcategory : ¬ (raw.take 2 = txt "+@" ∨ raw.take 2 = txt "-@")) (hall : raw ≠ txt "~*")
    (h : parsePrefixed raw = .ok (.rule r)) : RuleToken raw r := by
  unfold parsePrefixed at h
  split at h
  · rcases ite_eq_iff.mp h with ⟨-, h⟩ | ⟨-, h⟩ <;> cases h
  · next name =>
    rcases ite_eq_iff.mp h with ⟨-, h⟩ | ⟨hsome, h⟩
    · cases h
    · cases h
      rw [validUtf8_cons (by decide)] at hvalid
      refine .allow ⟨hvalid, fun hnil => hsome (by rw [hnil]; rfl), fun hat => hcategory (.inl ?_)⟩
      obtain ⟨rest, rfl⟩ := head?_eq_some_iff.mp hat
      rfl
  · next name =>
    rcases ite_eq_iff.mp h with ⟨-, h⟩ | ⟨hsome, h⟩
    · cases h
    · cases h
      rw [validUtf8_cons (by decide)] at hvalid
      refine .deny ⟨hvalid, fun hnil => hsome (by rw [hnil]; rfl), fun hat => hcategory (.inr ?_)⟩
      obtain ⟨rest, rfl⟩ := head?_eq_some_iff.mp hat
      rfl
  · next pattern =>
    rcases ite_eq_iff.mp h with ⟨-, h⟩ | ⟨hsome, h⟩
    · cases h
    · cases h
      rw [validUtf8_cons (by decide)] at hvalid
      refine .keys hvalid (fun hnil => hsome (by rw [hnil]; rfl)) fun hstar => hall ?_
      rw [hstar]
      rfl
  · cases h

theorem ruleToken_of_parseToken {raw : Bytes} {r : AclRule} (h : parseToken raw = .ok (.rule r)) :
    RuleToken raw r := by
  unfold parseToken at h
  rcases ite_eq_iff.mp h with ⟨-, h⟩ | ⟨hvalid, h⟩
  · cases h
  dsimp only at h
  rcases ite_eq_iff.mp h with ⟨-, h⟩ | ⟨-, h⟩
  · cases h
  rcases ite_eq_iff.mp h with ⟨-, h⟩ | ⟨-, h⟩
  · cases h
  rcases ite_eq_iff.mp h with ⟨-, h⟩ | ⟨-, h⟩
  · cases h
  rcases ite_eq_iff.mp h with ⟨-, h⟩ | ⟨-, h⟩
  · cases h
    exact .allCommands raw
  rcases ite_eq_iff.mp h with ⟨-, h⟩ | ⟨-, h⟩
  · cases h
    exact .noCommands raw
  rcases ite_eq_iff.mp h with ⟨-, h⟩ | ⟨-, h⟩
  · cases h
    exact .allKeys raw
  rcases ite_eq_iff.mp h with ⟨-, h⟩ | ⟨-, h⟩
  · cases h
    exact .allCommands raw
  rcases ite_eq_iff.mp h with ⟨-, h⟩ | ⟨-, h⟩
  · cases h
    exact .noCommands raw
  rcases ite_eq_iff.mp h with ⟨-, h⟩ | ⟨hcategory, h⟩
  · cases h
  rcases ite_eq_iff.mp h with ⟨-, h⟩ | ⟨hall, h⟩
  · cases h
    exact .allKeys raw
  rw [Bool.not_eq_false] at hvalid
  exact ruleToken_of_parsePrefixed hvalid hcategory hall h

theorem parseToken_signed {sign : UInt8} (hsign : sign = 43 ∨ sign = 45 ∨ sign = 126) {text : Bytes}
    (hvalid : validUtf8 text = true)
    (hcategory : text.head? ≠ some 64 ∨ sign = 126) (hall : sign = 126 → text ≠ txt "*") :
    parseToken (sign :: text) = parsePrefixed (sign :: text) := by
  have hhead : (asciiLower (sign :: text)).head? = some sign := by
    rcases hsign with rfl | rfl | rfl <;> rfl
  have hword {word : Bytes} (hfirst : word.head? ∉ [some 43, some 45, some 126]) :
      ¬ asciiLower (sign :: text) = word := by
    rintro rfl
    rw [hhead] at hfirst
    rcases hsign with rfl | rfl | rfl <;> exact hfirst (by decide)
  have hutf8 : ¬ validUtf8 (sign :: text) = false := by
    rw [validUtf8_cons (by rcases hsign with rfl | rfl | rfl <;> decide), hvalid]
    decide
  have htwo (b : UInt8) (hb : b = 43 ∨ b = 45) : ¬ (sign :: text).take 2 = [b, 64] := by
    cases text with
    | nil =>
      intro heq
      cases heq
    | cons c rest =>
      intro heq
      cases heq
      rcases hcategory with hfirst | rfl
      · exact hfirst rfl
      · rcases hb with hb | hb <;> cases hb
  have hplus : ¬ (sign :: text).take 2 = txt "+@" := htwo 43 (.inl rfl)
  have hminus : ¬ (sign :: text).take 2 = txt "-@" := htwo 45 (.inr rfl)
  unfold parseToken
  dsimp only
  rw [if_neg hutf8, if_neg (hword (by decide)), if_neg (hword (by decide)),
    if_neg (hword (by decide)), if_neg (hword (by decide)), if_neg (hword (by decide)),
    if_neg (hword (by decide)), if_neg fun heq => hplus (by rw [heq]; rfl),
    if_neg fun heq => hminus (by rw [heq]; rfl), if_neg (not_or.mpr ⟨hplus, hminus⟩), if_neg ?_]
  intro heq
  cases heq
  exact hall rfl rfl

/-- What a rule needs for its own token to be read as the rule: no space in it, and a command name
that comes back from lower case. -/
def AclRule.Plain (lower : Bytes → Bytes) : AclRule → Prop
  | allowCommand c | denyCommand c => 32 ∉ c ∧ asciiUpper (lower c) = c
  | keyPattern p => 32 ∉ p
  | _ => True

section

variable (lower : Bytes → Bytes) {name : Bytes} {make : Bytes → AclRule} {sign : UInt8}

structure SignOf (sign : UInt8) (make : Bytes → AclRule) : Prop where
  plusMinus : sign = 43 ∨ sign = 45
  reads : ∀ text, text ≠ [] → parsePrefixed (sign :: text) = .ok (.rule (make (asciiUpper text)))
  only : ∀ {text c}, RuleToken (sign :: text) (make c) → c = asciiUpper text

theorem signOf_allow : SignOf 43 .allowCommand where
  plusMinus := .inl rfl
  reads text htext := if_neg fun hnil => htext (isEmpty_iff.mp hnil)
  only h := by
    cases h
    rfl

theorem signOf_deny : SignOf 45 .denyCommand where
  plusMinus := .inr rfl
  reads text htext := if_neg fun hnil => htext (isEmpty_iff.mp hnil)
  only h := by
    cases h
    rfl

theorem SignOf.reparses_iff (hsign : SignOf sign make) (hname : CommandWord name) :
    32 ∉ sign :: lower (asciiUpper name) ∧
        parseToken (sign :: lower (asciiUpper name)) = .ok (.rule (make (asciiUpper name))) ↔
      32 ∉ asciiUpper name ∧ asciiUpper (lower (asciiUpper name)) = asciiUpper name := by
  generalize hlower : lower (asciiUpper name) = text
  constructor
  · rintro ⟨hspace, hparse⟩
    have hcase := hsign.only (ruleToken_of_parseToken hparse)
    refine ⟨?_, hcase.symm⟩
    rw [hcase, mem_asciiUpper (by decide)]
    exact fun hmem => hspace (mem_cons_of_mem _ hmem)
  · rintro ⟨hspace, hcase⟩
    have htext := hname.of_asciiUpper hcase
    rw [← hcase, mem_asciiUpper (by decide)] at hspace
    refine ⟨?_, ?_⟩
    · rw [mem_cons, not_or]
      refine ⟨?_, hspace⟩
      rcases hsign.plusMinus with rfl | rfl <;> decide
    · rw [parseToken_signed (hsign.plusMinus.elim .inl fun h => .inr (.inl h)) htext.valid
        (.inl htext.noCategory), hsign.reads text htext.nonempty, hcase]
      rcases hsign.plusMinus with rfl | rfl <;> exact fun h => absurd h (by decide)

end

theorem reparses_iff (lower : Bytes → Bytes) {raw : Bytes} {r : AclRule} (h : RuleToken raw r) :
    32 ∉ ruleToken lower r ∧ parseToken (ruleToken lower r) = .ok (.rule r) ↔ r.Plain lower := by
  cases h with
  | allCommands => exact iff_of_true ⟨(by decide : 32 ∉ txt "+@all"), rfl⟩ trivial
  | noCommands => exact iff_of_true ⟨(by decide : 32 ∉ txt "-@all"), rfl⟩ trivial
  | allKeys => exact iff_of_true ⟨(by decide : 32 ∉ txt "~*"), rfl⟩ trivial
  | allow hname => exact signOf_allow.reparses_iff lower hname
  | deny hname => exact signOf_deny.reparses_iff lower hname
  | @keys pattern hvalid hsome hall =>
    have hread : parseToken (126 :: pattern) = .ok (.rule (.keyPattern pattern)) := by
      rw [parseToken_signed (.inr (.inr rfl)) hvalid (.inr rfl) fun _ => hall]
      exact if_neg fun hnil => hsome (isEmpty_iff.mp hnil)
    have hspace : 32 ∉ 126 :: pattern ↔ 32 ∉ pattern := by
      rw [mem_cons, not_or]
      exact and_iff_right (by decide)
    exact (and_iff_left hread).trans hspace

section

variable (lower : Bytes → Bytes)

/-- What a reader of `ACL LIST` makes of a user's line: it is split at spaces, and the tokens behind
the password field are parsed. -/
def AclUser.described (u : AclUser) : Except AclError (List AclToken) :=
  (((renderUserLine lower u).splitOn 32).drop 4).mapM parseToken

structure AclUser.Listed (u : AclUser) : Prop where
  username : 32 ∉ u.username
  password : ∀ hash, u.passwordHash = some hash → 32 ∉ hash
  rules : ∀ r ∈ u.rules, ∃ raw, RuleToken raw r

variable {lower} {u : AclUser}

theorem AclUser.Listed.fields (h : u.Listed) :
    ((renderUserLine lower u).splitOn 32).drop 4 =
      (u.rules.map (ruleToken lower)).flatMap (List.splitOn 32) := by
  have hpassword : 32 ∉ u.passwordHash.elim (txt "nopass") (txt "#" ++ ·) := by
    cases hash : u.passwordHash with
    | none => decide
    | some text =>
      intro hmem
      rcases mem_append.mp hmem with hmem | hmem
      · exact absurd hmem (by decide)
      · exact h.password text hash hmem
  have hfront : ∀ part ∈ [txt "user", u.username, if u.enabled then txt "on" else txt "off",
      u.passwordHash.elim (txt "nopass") (txt "#" ++ ·)], 32 ∉ part := by
    intro part hpart
    rcases mem_cons.mp hpart with rfl | hpart
    · decide
    rcases mem_cons.mp hpart with rfl | hpart
    · exact h.username
    rcases mem_cons.mp hpart with rfl | hpart
    · cases u.enabled <;> decide
    · rw [mem_singleton.mp hpart]
      exact hpassword
  have hline : renderUserLine lower u = [32].intercalate ([txt "user", u.username,
      if u.enabled then txt "on" else txt "off",
      u.passwordHash.elim (txt "nopass") (txt "#" ++ ·)] ++ u.rules.map (ruleToken lower)) := rfl
  rw [hline, splitOn_intercalate_parts 32 (by simp), flatMap_append, flatMap_splitOn hfront]
  rfl

theorem AclUser.Listed.described_iff (h : u.Listed) :
    u.described lower = .ok (u.rules.map .rule) ↔ ∀ r ∈ u.rules, r.Plain lower := by
  have hrules : (∀ r ∈ u.rules, r.Plain lower) ↔ ∀ r ∈ u.rules,
      32 ∉ ruleToken lower r ∧ parseToken (ruleToken lower r) = .ok (.rule r) := by
    refine forall₂_congr fun r hr => ?_
    obtain ⟨raw, hraw⟩ := h.rules r hr
    exact (reparses_iff lower hraw).symm
  rw [hrules, described, h.fields, mapM_eq_ok_iff]
  constructor
  · intro hall
    -- a space in a token would make more fields than there are rules
    have hlength := hall.length_eq
    rw [length_map, ← length_map (ruleToken lower)] at hlength
    have hspaces := not_mem_of_length_flatMap hlength
    rw [flatMap_splitOn hspaces, forall₂_map_left_iff, forall₂_map_right_iff, forall₂_same] at hall
    exact fun r hr => ⟨hspaces _ (mem_map_of_mem hr), hall r hr⟩
  · intro hall
    rw [flatMap_splitOn, forall₂_map_left_iff, forall₂_map_right_iff, forall₂_same]
    · exact fun r hr => (hall r hr).2
    · intro part hpart
      obtain ⟨r, hr, rfl⟩ := mem_map.mp hpart
      exact (hall r hr).1

end

/-- The tables of users that calls of `ACL SETUSER` lead to, from an empty one. A password hash is
a PHC string, in which there are no spaces. -/
inductive SetUsers : AclStore → Prop
  | new : SetUsers .new
  | setUser {acl acl' : AclStore} {argon : Argon2} {username : Bytes} {rawTokens : List Bytes}
      (hacl : SetUsers acl) (hhash : ∀ pw, 32 ∉ argon.hash pw)
      (hset : acl.setUser argon username rawTokens = .ok acl') : SetUsers acl'

def AclToken.Harmless : AclToken → Prop
  | password hash => 32 ∉ hash
  | rule r => ∃ raw, RuleToken raw r
  | _ => True

theorem AclUser.Listed.applyTokens {u : AclUser} (h : u.Listed) {tokens : List AclToken}
    (htokens : ∀ t ∈ tokens, t.Harmless) : (applyTokens u tokens).Listed := by
  induction tokens generalizing u with
  | nil => exact h
  | cons token tokens ih =>
    have htoken := htokens token mem_cons_self
    refine ih ?_ fun t ht => htokens t (mem_cons_of_mem _ ht)
    cases token with
    | on => exact ⟨h.username, h.password, h.rules⟩
    | off => exact ⟨h.username, h.password, h.rules⟩
    | noPass => exact ⟨h.username, fun _ heq => absurd heq (by simp), h.rules⟩
    | password hash =>
      refine ⟨h.username, fun hash' heq => ?_, h.rules⟩
      cases heq
      exact htoken
    | rule r =>
      refine ⟨h.username, h.password, fun r' hr' => ?_⟩
      rcases mem_append.mp hr' with hr' | hr'
      · exact h.rules r' hr'
      · rw [mem_singleton.mp hr']
        exact htoken

theorem not_mem_of_validateUsername {username : Bytes} (h : validateUsername username = .ok ()) :
    32 ∉ username := by
  rcases ite_eq_iff.mp h with ⟨-, h⟩ | ⟨hvalid, -⟩
  · cases h
  · exact fun hmem => hvalid (.inr (.inl hmem))

theorem AclStore.listed_setUser {acl acl' : AclStore} {argon : Argon2} {username : Bytes}
    {rawTokens : List Bytes} (hacl : ∀ name u, acl.getUser name = some u → u.Listed)
    (hhash : ∀ pw, 32 ∉ argon.hash pw)
    (h : acl.setUser argon username rawTokens = .ok acl') :
    ∀ name u, acl'.getUser name = some u → u.Listed := by
  intro name u hu
  by_cases hname : name = username
  · subst hname
    unfold setUser at h
    simp only [bind, Except.bind, pure, Except.pure] at h
    split at h
    · cases h
    · next hvalid =>
      split at h
      · cases h
      · next tokens htokens =>
        cases h
        rw [getUser, Finmap.lookup_insert] at hu
        cases hu
        refine AclUser.Listed.applyTokens ?_ ?_
        · cases hold : acl.getUser name with
          | none =>
            exact ⟨not_mem_of_validateUsername hvalid, fun _ heq => absurd heq (by simp),
              fun _ hr => absurd hr not_mem_nil⟩
          | some u => exact hacl name u hold
        · intro t ht
          obtain ⟨token, htoken, rfl⟩ := mem_map.mp ht
          obtain ⟨raw, -, hparse⟩ := mem_of_mapM htokens htoken
          cases token with
          | on => trivial
          | off => trivial
          | noPass => trivial
          | password pw => exact hhash pw
          | rule r => exact ⟨raw, ruleToken_of_parseToken hparse⟩
  · rw [getUser_setUser_of_ne h hname] at hu
    exact hacl name u hu

theorem SetUsers.listed {acl : AclStore} (h : SetUsers acl) :
    ∀ name u, acl.getUser name = some u → u.Listed := by
  induction h with
  | new => exact fun _ _ hu => by cases hu
  | setUser _ hhash hset ih => exact AclStore.listed_setUser ih hhash hset

/-- The line of a user that `ACL SETUSER` has made, split at spaces and parsed behind the password
field, gives the user's rules exactly when none of them has a space in it and every command name is
the ASCII upper case of its lower case; users of that kind with different rules have different
lines. -/
theorem user_line_describes_iff (lower : Bytes → Bytes) :
    (∀ acl name u, SetUsers acl → acl.getUser name = some u →
      (u.described lower = .ok (u.rules.map .rule) ↔ ∀ r ∈ u.rules, r.Plain lower)) ∧
    ∀ acl₁ acl₂ name₁ name₂ u₁ u₂, SetUsers acl₁ → acl₁.getUser name₁ = some u₁ →
      SetUsers acl₂ → acl₂.getUser name₂ = some u₂ →
      (∀ r ∈ u₁.rules, r.Plain lower) → (∀ r ∈ u₂.rules, r.Plain lower) →
      renderUserLine lower u₁ = renderUserLine lower u₂ → u₁.rules = u₂.rules := by
  refine ⟨fun acl name u hacl hu => (hacl.listed name u hu).described_iff, ?_⟩
  intro acl₁ acl₂ name₁ name₂ u₁ u₂ hacl₁ hu₁ hacl₂ hu₂ hplain₁ hplain₂ hline
  have hrules₁ := (hacl₁.listed name₁ u₁ hu₁).described_iff.mpr hplain₁
  have hrules₂ := (hacl₂.listed name₂ u₂ hu₂).described_iff.mpr hplain₂
  rw [AclUser.described, hline] at hrules₁
  rw [AclUser.described, hrules₁, Except.ok.injEq] at hrules₂
  exact map_injective_iff.mpr (fun _ _ h => AclToken.rule.inj h) hrules₂

def oneUser (rules : List AclRule) : AclStore :=
  ⟨(∅ : HashMap Bytes AclUser).insert (txt "u") ⟨txt "u", none, false, rules⟩, true⟩

theorem oneUser_lookup (rules : List AclRule) :
    (oneUser rules).getUser (txt "u") = some ⟨txt "u", none, false, rules⟩ :=
  Finmap.lookup_insert _

theorem setUsers_oneUser (rawTokens : List Bytes) {rules : List AclRule}
    (h : AclStore.new.setUser ⟨fun _ => [], fun _ _ => false⟩ (txt "u") rawTokens =
      .ok (oneUser rules)) : SetUsers (oneUser rules) :=
  .setUser .new (fun _ => not_mem_nil) h

theorem user_line_describes_plain :
    (⟨txt "u", none, false, [.keyPattern (txt "a"), .allowCommand (txt "GET")]⟩ : AclUser).described
      asciiLower = .ok [.rule (.keyPattern (txt "a")), .rule (.allowCommand (txt "GET"))] := by
  have hset : SetUsers (oneUser [.keyPattern (txt "a"), .allowCommand (txt "GET")]) :=
    setUsers_oneUser [txt "~a", txt "+get"] rfl
  refine ((user_line_describes_iff asciiLower).1 _ _ _ hset (oneUser_lookup _)).mpr ?_
  intro r hr
  rcases mem_cons.mp hr with rfl | hr
  · exact (by decide : 32 ∉ txt "a")
  · rw [mem_singleton.mp hr]
    exact ⟨by decide, by decide⟩

/-- One pattern with a space in it and two patterns without have the same line, and from it the
first user's rule is not read back. -/
theorem user_line_merges_patterns :
    ∃ acl₁ acl₂ u₁ u₂, SetUsers acl₁ ∧ acl₁.getUser (txt "u") = some u₁ ∧
      SetUsers acl₂ ∧ acl₂.getUser (txt "u") = some u₂ ∧ u₁.rules ≠ u₂.rules ∧
      renderUserLine asciiLower u₁ = renderUserLine asciiLower u₂ ∧
      u₁.described asciiLower ≠ .ok (u₁.rules.map .rule) := by
  refine ⟨_, _, _, _, setUsers_oneUser [txt "~a ~b"] rfl, oneUser_lookup [.keyPattern (txt "a ~b")],
    setUsers_oneUser [txt "~a", txt "~b"] rfl,
    oneUser_lookup [.keyPattern (txt "a"), .keyPattern (txt "b")], by decide, by decide, ?_⟩
  have hline : (⟨txt "u", none, false, [.keyPattern (txt "a ~b")]⟩ : AclUser).described asciiLower =
      .ok [.rule (.keyPattern (txt "a")), .rule (.keyPattern (txt "b"))] := rfl
  rw [hline]
  intro heq
  exact absurd (congrArg List.length (Except.ok.inj heq)) (by decide)

end RocketMem
