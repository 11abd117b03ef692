import RocketMem.Framework.Bytes

namespace RocketMem

inductive GlobToken where
  | literal (b : UInt8)
  | any
  | star
  | charClass (body : Bytes) (negate : Bool)
  deriving DecidableEq, Repr

/-- `tokenize`, with the pattern's length as fuel: every token takes at least one byte. -/
def tokenizeFuel : Nat → Bytes → List GlobToken
  | _, [] => []
  | 0, _ => []
  | fuel + 1, c :: rest =>
    if c = 92 then
      match rest with
      | [] => [.literal c]
      | b :: rest => .literal b :: tokenizeFuel fuel rest
    else if c = 42 then .star :: tokenizeFuel fuel rest
    else if c = 63 then .any :: tokenizeFuel fuel rest
    else if c = 91 then
      match rest.findIdx? (· = 93) with
      | none => .literal c :: tokenizeFuel fuel rest
      | some close =>
        let body := rest.take close
        let negate := body.head? = some 94 ∨ body.head? = some 33
        .charClass (if negate then body.tail else body) negate :: tokenizeFuel fuel (rest.drop (close + 1))
    else .literal c :: tokenizeFuel fuel rest

def tokenize (pattern : Bytes) : List GlobToken := tokenizeFuel pattern.length pattern

def classMatches (c : UInt8) : Bytes → Bool
  | lo :: mid :: hi :: rest =>
    if mid = 45 then (lo.toNat ≤ c.toNat && c.toNat ≤ hi.toNat) || classMatches c rest
    else lo = c || classMatches c (mid :: hi :: rest)
  | b :: rest => b = c || classMatches c rest
  | [] => false

def tokenMatches (token : GlobToken) (c : UInt8) : Bool :=
  match token with
  | .literal l => l = c
  | .any => true
  | .charClass body negate => classMatches c body != negate
  | .star => false

/-- The state of the two-pointer walk: positions in the tokens and the text, and the last star
with the text position it is tried from. -/
structure GlobState where
  ti : Nat
  si : Nat
  star : Option (Nat × Nat)

/-- One turn of the matching loop; `none` when the text cannot match. -/
def globStep (tokens : List GlobToken) (c : UInt8) (s : GlobState) : Option GlobState :=
  if (tokens[s.ti]?).any fun t => tokenMatches t c then some { s with ti := s.ti + 1, si := s.si + 1 }
  else if tokens[s.ti]? = some .star then some { s with ti := s.ti + 1, star := some (s.ti, s.si) }
  else match s.star with
    | some (st, from_) => some { ti := st + 1, si := from_ + 1, star := some (st, from_ + 1) }
    | none => none

def globLoop (tokens : List GlobToken) (text : Bytes) : Nat → GlobState → Bool
  | 0, _ => false
  | fuel + 1, s =>
    match text[s.si]? with
    | none => (tokens.drop s.ti).all (· = .star)
    | some c =>
      match globStep tokens c s with
      | none => false
      | some s' => globLoop tokens text fuel s'

/-- `glob_match`. Between two moves of the remembered star the walk takes at most one step per
token and byte, which bounds its length. -/
def globMatch (pattern text : Bytes) : Bool :=
  let tokens := tokenize pattern
  globLoop tokens text ((text.length + 2) * (text.length + tokens.length + 2)) ⟨0, 0, none⟩

end RocketMem
