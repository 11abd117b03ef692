import RocketMem.Server.Logging
import RocketMem.Server.WriteProof

namespace RocketMem

open List Option Function Dispatch

variable {F : Type} [F64 F] {env env' : Env}

theorem upperWord_of_commandName {raw : Bytes} {c : CommandName} (h : commandName raw = some c) :
    upperWord raw = c.text := by
  obtain ⟨name, hname, hc⟩ := bind_eq_some_iff.mp h
  unfold upperName at hname
  split at hname
  · cases hname
  · next hraw =>
    cases hname
    have hascii : isAscii raw = true := by
      simpa using fun hfalse => hraw (.inr hfalse)
    have hfound := find?_some hc
    rw [upperWord, fromUtf8Lossy_of_ascii hascii]
    simpa using (of_decide_eq_true hfound).symm

theorem commandName_pexpireat : commandName (txt "PEXPIREAT") = some .pexpireat := by
  decide

theorem commandName_srem : commandName (txt "SREM") = some .srem := by
  decide

/-- The words of a flag list that stand on their own: reading from the left, `EX` and `PX` each
take the word after them as their value. -/
def flagWords : List Bytes → List Bytes
  | w :: v :: rest => if isTtlWord w then flagWords rest else w :: flagWords (v :: rest)
  | [w] => if isTtlWord w then [] else [w]
  | [] => []

theorem dropTtlFlags_words (words : List Bytes) :
    dropTtlFlags (words.map .bulk) = (flagWords words).map .bulk := by
  induction words using flagWords.induct with
  | case1 w v rest h ih => simpa only [map_cons, dropTtlFlags, flagWords, if_pos h] using ih
  | case2 w v rest h ih =>
    rw [flagWords, if_neg h, map_cons, map_cons, dropTtlFlags.eq_def]
    simp only [if_neg h]
    exact congrArg (Frame.bulk w :: ·) ih
  | case3 w h => simp [dropTtlFlags, flagWords, h]
  | case4 w h => simp [dropTtlFlags, flagWords, h]
  | case5 => rfl

theorem not_ttl_of_mem_flagWords (words : List Bytes) :
    ∀ w ∈ flagWords words, ¬ isTtlWord w = true := by
  induction words using flagWords.induct with
  | case1 w v rest h ih => rwa [flagWords, if_pos h]
  | case2 w v rest h ih =>
    rw [flagWords, if_neg h]
    exact forall_mem_cons.mpr ⟨h, ih⟩
  | case3 w h => simp [flagWords, h]
  | case4 w h => simp [flagWords, h]
  | case5 => simp [flagWords]

theorem mem_of_mem_flagWords {words : List Bytes} {w : Bytes} (h : w ∈ flagWords words) :
    w ∈ words := by
  induction words using flagWords.induct with
  | case1 w' v rest ht ih =>
    rw [flagWords, if_pos ht] at h
    exact mem_cons_of_mem _ (mem_cons_of_mem _ (ih h))
  | case2 w' v rest ht ih =>
    rw [flagWords, if_neg ht] at h
    rcases mem_cons.mp h with rfl | h
    · exact mem_cons_self
    · exact mem_cons_of_mem _ (ih h)
  | case3 w' ht => simp [flagWords, ht] at h
  | case4 w' ht => simpa [flagWords, ht] using h
  | case5 => exact h

namespace Dispatch

theorem flagValue_cons (flag : String) (w : Bytes) (rest : List Bytes) :
    flagValue flag (w :: rest) =
      if upperWord w = txt flag then some (rest.head?.bind parseI64)
      else flagValue flag rest := by
  unfold flagValue
  rw [findIdx?_cons]
  by_cases h : upperWord w = txt flag
  · simp [h, head?_eq_getElem?]
  · simp [h, comp_def]

theorem flagValue_eq_none {flag : String} {words : List Bytes}
    (h : ∀ w ∈ words, upperWord w ≠ txt flag) : flagValue flag words = none := by
  rw [flagValue, findIdx?_eq_none_iff.mpr fun w hw => decide_eq_false (h w hw)]
  rfl

theorem setTtl_flagWords (words : List Bytes) : setTtl (flagWords words) = .ok none := by
  have hnone (flag : String) (hflag : flag = "EX" ∨ flag = "PX") :
      flagValue flag (flagWords words) = none := by
    refine flagValue_eq_none fun w hw heq => not_ttl_of_mem_flagWords words w hw ?_
    rcases hflag with rfl | rfl <;> simp [isTtlWord, heq]
  rw [setTtl, hnone "EX" (.inl rfl), hnone "PX" (.inr rfl)]

end Dispatch

theorem scanFlag_words (flag : String) (words : List Bytes) :
    scanFlag flag (words.map .bulk) =
      match flagValue flag words with
      | none => some none
      | some none => none
      | some (some n) => some (some n) := by
  induction words with
  | nil => rfl
  | cons w rest ih =>
    rw [flagValue_cons, map_cons, scanFlag]
    split
    · cases rest with
      | nil => rfl
      | cons v rest =>
        simp only [map_cons, head?_cons, bind_some]
        cases parseI64 v <;> rfl
    · exact ih

theorem rewriteSetTtl_words (c : Clock) (name : Frame) (key val : Bytes) {words : List Bytes}
    {ttl : Option Int} (h : setTtl words = .ok ttl) :
    rewriteSetTtlToPexpireat c (name :: .bulk key :: .bulk val :: words.map .bulk) =
      ttl.map fun ms =>
        [.array (name :: .bulk key :: .bulk val :: (flagWords words).map .bulk),
          pexpireatFrame key (saturatingAdd c.unixMs ms)] := by
  unfold setTtl at h
  simp only [rewriteSetTtlToPexpireat, scanTtl, scanFlag_words, dropTtlFlags_words]
  rcases hex : flagValue "EX" words with _ | _ | secs
  · rw [hex] at h
    rcases hpx : flagValue "PX" words with _ | _ | ms
    all_goals
      rw [hpx] at h
      cases h
    all_goals rfl
  all_goals
    rw [hex] at h
    cases h
  rfl

/-! Apart from SPOP, a write depends on its environment only through the memory ceiling and, when it
is timed, the clock. -/

section

variable (hmax : env.maxmemory = env'.maxmemory)

include hmax

theorem Engine.set_env (key : Bytes) (value : Value F) :
    set env key value = set env' key value := by
  rw [set, set, maybeEvict, maybeEvict, hmax]

theorem Engine.withMutDelta_env {R : Type} (key : Bytes) (absent : R)
    (f : Value F → R × Value F × Int) :
    withMutDelta env key absent f = withMutDelta env' key absent f := by
  rw [withMutDelta, withMutDelta, maybeEvict, maybeEvict, hmax]

theorem mset_env (pairs : List (Bytes × Bytes)) :
    (mset env pairs : EngineProgram F Unit) = mset env' pairs := by
  induction pairs with
  | nil => rfl
  | cons p pairs ih => simp only [mset, Engine.set_env hmax, ih]

theorem Dispatch.hsetPairs_env (key : Bytes) (ps : List (Bytes × Bytes)) (added : Int) :
    (hsetPairs env key ps added : EngineProgram F Frame) = hsetPairs env' key ps added := by
  induction ps generalizing added with
  | nil => rfl
  | cons p ps ih =>
    simp only [hsetPairs, RocketMem.hset, upsert, Engine.set_env hmax,
      Engine.withMutDelta_env hmax, ih]

theorem Dispatch.firstAvailablePop_env (stop : ListEnd) (keys : List Bytes) :
    (firstAvailablePop env stop keys : EngineProgram F _) = firstAvailablePop env' stop keys := by
  induction keys with
  | nil => rfl
  | cons k keys ih =>
    simp only [firstAvailablePop, popAt_eq, Engine.withMutDelta_env hmax, ih]

theorem arm_env {c : CommandName} (hclock : c.isTimed = true → env.clock = env'.clock)
    (hw : c.isWrite = true) (hspop : c ≠ .spop) (args : List Bytes) :
    (Dispatch.arm env c args : EngineProgram F Frame) = Dispatch.arm env' c args := by
  have hmset := mset_env (F := F) hmax
  have hhset := Dispatch.hsetPairs_env (F := F) hmax
  have hpop := Dispatch.firstAvailablePop_env (F := F) hmax
  cases c with
  | mset =>
    show Dispatch.mset env args = Dispatch.mset env' args
    simp only [Dispatch.mset, hmset]
  | msetnx =>
    show Dispatch.msetnx env args = Dispatch.msetnx env' args
    simp only [Dispatch.msetnx, msetnx, hmset]
  | hset =>
    show Dispatch.hset env args = Dispatch.hset env' args
    simp only [Dispatch.hset, hhset]
  | blpop | brpop =>
    show Dispatch.blockingPop env _ _ args = Dispatch.blockingPop env' _ _ args
    simp only [Dispatch.blockingPop, hpop]
  | spop => exact absurd rfl hspop
  | _ =>
    first
    | exact absurd hw (by decide)
    | (obtain ⟨⟩ := env
       obtain ⟨⟩ := env'
       cases hmax
       first
       | rfl
       | (cases hclock rfl; rfl))

theorem dispatch_env (hclock : env.clock = env'.clock) {frame : Frame} {c : CommandName}
    (h : extractWriteCommandName frame = some c) (hspop : c ≠ .spop) :
    (dispatch env frame : EngineProgram F Frame) = dispatch env' frame := by
  obtain ⟨hw, ⟨raw, args, rfl, hname⟩ | hreject⟩ := write_frame_cases (F := F) h
  · rw [dispatch_command hname, dispatch_command hname]
    exact arm_env hmax (fun _ => hclock) hw hspop args
  · rw [hreject env, hreject env']

end

def applyAll (env : Env) (frames : List Frame) (ks : Keyspace F) : Keyspace F :=
  frames.foldl (fun ks frame => (runKeyspace env.clock (dispatch env frame) ks).2) ks

@[simp] theorem applyAll_nil (ks : Keyspace F) : applyAll env [] ks = ks := rfl

@[simp] theorem applyAll_cons (frame : Frame) (frames : List Frame) (ks : Keyspace F) :
    applyAll env (frame :: frames) ks =
      applyAll env frames (runKeyspace env.clock (dispatch env frame) ks).2 := rfl

theorem applyAll_append (env : Env) (frames frames' : List Frame) (ks : Keyspace F) :
    applyAll env (frames ++ frames') ks = applyAll env frames' (applyAll env frames ks) :=
  foldl_append

theorem dispatch_live (hmem : env.maxmemory = none) (frame : Frame) (st : Store F) :
    (runEngine env (dispatch env frame) st).2.live env.clock =
      (runKeyspace env.clock (dispatch env frame) (st.live env.clock)).2 := by
  cases hname : extractWriteCommandName frame with
  | some c => exact (runEngine_live (dispatch_atomic (F := F) hmem hname).touches env st).2
  | none =>
    have hreads : Reads (dispatch env frame : EngineProgram F Frame) := dispatch_reads hname
    rw [runEngine_reads hreads, runKeyspace_reads hreads]

theorem dispatchAll_live (hmem : env.maxmemory = none) (frames : List Frame) (st : Store F) :
    (dispatchAll env frames st).live env.clock = applyAll env frames (st.live env.clock) := by
  induction frames generalizing st with
  | nil => rfl
  | cons frame frames ih =>
    have hrest := ih (runEngine env (dispatch env frame) st).2
    rw [dispatch_live hmem] at hrest
    exact hrest

theorem extractWriteCommandName_command {raw : Bytes} {c : CommandName}
    (hname : commandName raw = some c) (hw : c.isWrite = true) (args : List Frame) :
    extractWriteCommandName (.array (.bulk raw :: args)) = some c := by
  simp only [extractWriteCommandName, hname, filter_some, hw, if_true]

theorem pexpireatFrame_isWrite (key : Bytes) (t : Int) :
    (extractWriteCommandName (pexpireatFrame key t)).isSome :=
  isSome_of_eq_some (extractWriteCommandName_command commandName_pexpireat (by decide) _)

theorem rewriteSetTtl_isWrite {c : Clock} {items frames : List Frame}
    (hw : (extractWriteCommandName (.array items)).isSome)
    (h : rewriteSetTtlToPexpireat c items = some frames) :
    ∀ f ∈ frames, (extractWriteCommandName f).isSome := by
  unfold rewriteSetTtlToPexpireat at h
  split at h
  · next name key val flags =>
    simp only [bind_eq_bind, bind_eq_some_iff] at h
    obtain ⟨ttl, -, ms, -, hframes⟩ := h
    cases hframes
    intro f hf
    simp only [mem_cons, not_mem_nil, or_false] at hf
    rcases hf with rfl | rfl
    · cases name with
      | bulk raw => exact hw
      | _ => cases hw
    · exact pexpireatFrame_isWrite _ _
  · cases h

theorem logSpop_isWrite (items : List Frame) (reply : Frame) :
    ∀ f ∈ logSpop items reply, (extractWriteCommandName f).isSome := by
  intro f hf
  unfold logSpop at hf
  split at hf
  · rw [mem_singleton.mp hf, extractWriteCommandName_command commandName_srem (by decide)]
    rfl
  · cases hf

theorem logExpire_isWrite (c : Clock) (items : List Frame) (reply : Frame) :
    ∀ f ∈ logExpire c items reply, (extractWriteCommandName f).isSome := by
  intro f hf
  unfold logExpire at hf
  split at hf
  · split at hf
    · rw [mem_toList] at hf
      unfold rewriteExpireFamilyToPexpireat at hf
      split at hf
      · simp only [bind_eq_bind, bind_eq_some_iff] at hf
        obtain ⟨n, -, target, -, hframe⟩ := hf
        cases hframe
        exact pexpireatFrame_isWrite _ _
      · cases hf
    · cases hf
  · cases hf

theorem toLog_isWrite (c : Clock) (frame reply : Frame) :
    ∀ f ∈ toLog c frame reply, (extractWriteCommandName f).isSome := by
  intro f hf
  unfold toLog at hf
  split at hf
  · cases hf
  · split at hf
    · next name items hname =>
      have hitems : (extractWriteCommandName (.array items)).isSome := by
        rw [hname]
        rfl
      have hverbatim (h : f ∈ [Frame.array items]) : (extractWriteCommandName f).isSome := by
        rwa [mem_singleton.mp h]
      have hset (h : f ∈ logSet c items reply) : (extractWriteCommandName f).isSome := by
        unfold logSet at h
        split at h
        · cases hrewrite : rewriteSetTtlToPexpireat c items with
          | none => exact hverbatim (by rwa [hrewrite] at h)
          | some frames => exact rewriteSetTtl_isWrite hitems hrewrite f (by rwa [hrewrite] at h)
        · exact hverbatim h
      have hblocking (h : f ∈ logBlocking items reply) : (extractWriteCommandName f).isSome := by
        unfold logBlocking at h
        split at h
        · cases h
        · exact hverbatim h
      unfold logFor at hf
      split at hf
      · exact logSpop_isWrite items reply f hf
      · exact logExpire_isWrite c items reply f hf
      · exact logExpire_isWrite c items reply f hf
      · exact logExpire_isWrite c items reply f hf
      · exact logExpire_isWrite c items reply f hf
      · exact hset hf
      · exact hblocking hf
      · exact hblocking hf
      · exact hblocking hf
      · exact hblocking hf
      · exact hverbatim hf
    · cases hf

theorem toLog_command (c : Clock) {raw : Bytes} {name : CommandName}
    (hname : commandName raw = some name) (hw : name.isWrite = true) (args : List Bytes)
    {reply : Frame} (hok : reply.isError = false) :
    toLog c (.command (raw :: args)) reply = logFor c name ((raw :: args).map .bulk) reply := by
  have hextract := extractWriteCommandName_command hname hw (args.map .bulk)
  simp only [toLog, hok, Bool.false_eq_true, if_false, Frame.command, map_cons, hextract]

def requestedTtl (c : CommandName) (args : List Bytes) : Option Int :=
  match c, args with
  | .set, _ :: _ :: words =>
    match setTtl words with
    | .ok ttl => ttl
    | .error _ => none
  | .expire, _ :: n :: _ => (parseI64 n).map (· * 1000)
  | .pexpire, _ :: n :: _ => parseI64 n
  | _, _ => none

def frameTtl (frame : Frame) : Option Int :=
  match frameToArgs frame with
  | .ok (raw :: args) => (commandName raw).bind fun c => requestedTtl c args
  | _ => none

def TtlFits (c : Clock) (frame : Frame) : Prop :=
  ∀ ms ∈ frameTtl frame, (c.wall : Int) + ms ≤ i64Max

/-- SET's words carry a positive time to live, `NX` occurs among them only as the value of an `EX`
or `PX`, and `XX` stands on its own. -/
def misread (words : List Bytes) : Bool :=
  (match setTtl words with
    | .ok (some ms) => decide (0 < ms)
    | _ => false) &&
    (hasFlag "NX" words && !hasFlag "NX" (flagWords words)) &&
    hasFlag "XX" (flagWords words)

def misreadSetKey (frame : Frame) : Option Bytes :=
  match frameToArgs frame with
  | .ok (raw :: key :: _ :: words) =>
    if commandName raw = some .set ∧ misread words = true then some key else none
  | _ => none

def LosesNx (frame : Frame) (ks : Keyspace F) : Prop := ∃ key ∈ misreadSetKey frame, ks key = none

theorem Clock.unixMs_eq (c : Clock) : c.unixMs = c.wall := by
  have hfits := c.fits
  refine wrapI64_of_inI64 ⟨?_, hfits⟩
  unfold i64Min
  omega

theorem saturatingAdd_inI64 (a b : Int) : InI64 (saturatingAdd a b) := by
  unfold InI64 saturatingAdd i64Min i64Max
  omega

theorem runKeyspace_pexpireatFrame (key : Bytes) {t : Int} (ht : InI64 t) (ks : Keyspace F) :
    (runKeyspace env.clock (dispatch env (pexpireatFrame key t)) ks).2 =
      update ks key ((ks key).expire env.clock t.toNat) := by
  have hcommand : pexpireatFrame key t = .command [txt "PEXPIREAT", key, showInt t] := rfl
  rw [hcommand, dispatch_command commandName_pexpireat]
  exact congrArg Prod.snd (runKeyspace_expireAtUnix "pexpireat" id [] (parseI64_showInt t ht) ks)

theorem runKeyspace_keptSet (hmem : env.maxmemory = none) {raw : Bytes}
    (hname : commandName raw = some .set) (key val : Bytes) (words : List Bytes)
    (ks : Keyspace F) :
    (runKeyspace env.clock (dispatch env (.command (raw :: key :: val :: flagWords words))) ks).2 =
      if setApplies (flagWords words) (ks key) then
        update ks key (some (.string val, none))
      else ks := by
  rw [dispatch_command hname]
  refine (congrArg Prod.snd (runKeyspace_set hmem key val (flagWords words) ks)).trans ?_
  rw [setTtl_flagWords]
  dsimp only
  split <;> rfl

theorem applyAll_rewrittenSet (hmem : env.maxmemory = none) {raw : Bytes}
    (hname : commandName raw = some .set) (key val : Bytes) (words : List Bytes) {t : Int}
    (ht : InI64 t) (ks : Keyspace F) :
    applyAll env [.command (raw :: key :: val :: flagWords words), pexpireatFrame key t] ks =
      update ks key (Slot.expire env.clock t.toNat
        (if setApplies (flagWords words) (ks key) then some (.string val, none)
        else ks key)) := by
  rw [applyAll_cons, runKeyspace_keptSet hmem hname, applyAll_cons,
    runKeyspace_pexpireatFrame key ht, applyAll_nil]
  split
  · rw [update_self, update_idem]
  · rfl

theorem hasFlag_of_flagWords {flag : String} {words : List Bytes}
    (h : hasFlag flag (flagWords words) = true) : hasFlag flag words = true := by
  obtain ⟨w, hw, hflag⟩ := any_eq_true.mp h
  exact any_eq_true.mpr ⟨w, mem_of_mem_flagWords hw, hflag⟩

theorem setApplies_flagWords {words : List Bytes} {s : Slot F}
    (h : setApplies words s = true) :
    setApplies (flagWords words) s = false ↔
      (hasFlag "NX" words = true ∧ hasFlag "NX" (flagWords words) = false ∧
        hasFlag "XX" (flagWords words) = true) ∧ s = none := by
  have hnx : hasFlag "NX" (flagWords words) = true → hasFlag "NX" words = true :=
    hasFlag_of_flagWords
  have hxx : hasFlag "XX" (flagWords words) = true → hasFlag "XX" words = true :=
    hasFlag_of_flagWords
  unfold setApplies at h ⊢
  by_cases hkept : hasFlag "NX" (flagWords words) = true
  · rw [if_pos (hnx hkept)] at h
    simp [hkept, h]
  · by_cases hkept' : hasFlag "XX" (flagWords words) = true
    · by_cases hgiven : hasFlag "NX" words = true
      · simp [hkept, hkept', hgiven]
      · rw [if_neg hgiven, if_pos (hxx hkept')] at h
        simp [hkept, hkept', hgiven, h]
    · simp [hkept, hkept']

theorem logExpire_words (clock : Clock) (raw key : Bytes) {word : Bytes} (rest : List Bytes)
    {n target : Int} (hn : parseI64 word = some n)
    (htarget : expireTarget clock raw n = some target) (found : Bool) :
    logExpire clock ((raw :: key :: word :: rest).map .bulk) (flagReply found) =
      if found then [pexpireatFrame key target] else [] := by
  cases found
  · rfl
  · simp [logExpire, flagReply, rewriteExpireFamilyToPexpireat, hn, htarget]

theorem removeMembers_singleton {s : Finset Bytes} {m : Bytes} (hm : m ∈ s) :
    (removeMembers [m] s).2.1 = s.erase m := by
  simp [removeMembers, hm]

theorem runKeyspace_sremOne (hmem : env.maxmemory = none) (key m : Bytes) (ks : Keyspace F) :
    (runKeyspace env.clock (dispatch env (.command [txt "SREM", key, m])) ks).2 =
      update ks key ((ks key).edit fun v =>
        (Variant.set.edit (fun s => ((.ok (removeMembers [m] s).1 : EngineResult Int),
          (removeMembers [m] s).2)) v).2.1) := by
  have harm : arm env .srem [key, m] =
      (replyWith .integer <$> srem env key [m] : EngineProgram F Frame) := rfl
  rw [dispatch_command commandName_srem, harm, runKeyspace_map, srem, runKeyspace_withMutDelta hmem]

theorem applyAll_logSpop (hmem : env.maxmemory = none) (hmem' : env'.maxmemory = none)
    {ks : Keyspace F} (hks : ks.Sound env.clock) {raw : Bytes} (args : List Bytes)
    {reply : Frame} {ks' : Keyspace F}
    (hrun : runKeyspace env.clock (Dispatch.spop env args) ks = (some reply, ks'))
    (hok : reply.isError = false) :
    applyAll env' (logSpop ((raw :: args).map .bulk) reply) ks = ks' := by
  cases args with
  | nil =>
    cases hrun
    cases hok
  | cons key rest =>
    have hidle := (Dispatch.spop_atomic (F := F) hmem (key :: rest)).unchanged env.clock ks hks
    rw [hrun] at hidle
    by_cases hnull : IsIdle reply
    · have hsame : ks' = ks := hidle fun r hr => by cases hr; exact hnull
      rcases hnull with herror | rfl
      · rw [IsError, hok] at herror
        cases herror
      · rw [hsame]
        rfl
    · simp only [Dispatch.spop, runKeyspace_map, spop, runKeyspace_withMutDelta hmem,
        map_some, Prod.mk.injEq, Option.some.injEq] at hrun
      obtain ⟨hreply, hks'⟩ := hrun
      rcases hslot : ks key with _ | ⟨v, d⟩
      · rw [hslot] at hreply
        exact absurd (.inr hreply.symm) hnull
      · rw [hslot] at hreply hks'
        cases v with
        | set s =>
          simp only [elim_some, Variant.edit, Variant.set, Slot.edit_some] at hreply hks'
          cases hchoose : env.choose s with
          | none =>
            rw [hchoose] at hreply
            exact absurd (.inr hreply.symm) hnull
          | some m =>
            rw [hchoose] at hreply hks'
            cases hreply
            show applyAll env' [.command [txt "SREM", key, m]] ks = ks'
            rw [applyAll_cons, applyAll_nil, runKeyspace_sremOne hmem', hslot, ← hks']
            simp only [Slot.edit_some, Variant.edit, Variant.set,
              removeMembers_singleton (env.choose_mem s m hchoose)]
        | _ =>
          cases hreply
          cases hok

end RocketMem
