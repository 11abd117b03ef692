import RocketMem.Server.Serializability

namespace RocketMem

open Finset

variable {F : Type} [F64 F] {w : Replayer F} {cfg : Settings}
  {permits : Nat → Option Fault → ServerOp F → Node F → Prop} {i : Nat}
  {L : Finset (Fin shardCount)} {A : Keyspace F}

section

variable {env : Env} (henv : env.clock = w.env.clock)

include henv

theorem snapshotEntries_triple {js : List (Fin shardCount)} (hjs : js.Nodup) :
    (serial w).Triple (server F cfg) permits i (Critical w i univ A A A)
      (snapshotEntries env js) fun entries s =>
        Captures w.env.clock (fun k => shardIndex k ∈ js) A entries ∧
          Critical w i univ A A A s := by
  induction js with
  | nil =>
    exact .ret Critical.stable fun s _ hs => ⟨.nil fun k => List.not_mem_nil, hs⟩
  | cons j js ih =>
    obtain ⟨hj, hjs⟩ := List.nodup_cons.mp hjs
    have hstable (K : Bytes → Prop) (entries : List (SnapshotEntry F)) :
        (serial w).Stable i fun s => Captures w.env.clock K A entries ∧ Critical w i univ A A A s :=
      fun s s' hrely hinv h => ⟨h.1, Critical.stable s s' hrely hinv h.2⟩
    have hshard : (serial w).Triple (server F cfg) permits i (Critical w i univ A A A)
        (perform (.shardEntries env j)) fun entries s =>
          Captures w.env.clock (fun k => shardIndex k = j) A entries ∧
            Critical w i univ A A A s := by
      refine .perform Critical.stable (fun _ => hstable _ _) (fun _ _ _ => trivial) ?_
      intro s hinv hs x r s' _ hx
      obtain ⟨rfl, rfl⟩ := Prod.mk.inj (Option.some.inj hx)
      refine ⟨Unseen.keeps ⟨rfl, rfl, rfl, rfl⟩ hinv, ?_, hs⟩
      have hcap := s.store.captures_shard env j
      rw [henv] at hcap
      exact hcap.congr (fun _ => Iff.rfl) fun k _ => hs.live (mem_univ _)
    refine .bind hshard fun first => ?_
    rintro s ⟨hfirst, hs⟩
    refine Discipline.Triple.bind (ih hjs) (fun rest => ?_) s hs
    refine .ret (hstable _ _) fun s _ h => ⟨?_, h.2⟩
    refine (hfirst.append h.1 fun k hk hk' => hj (hk ▸ hk')).congr (fun k => ?_) fun _ _ => rfl
    exact List.mem_cons

theorem takeSnapshot_triple (hA : A.Storable w.env.clock) (offset : Nat) :
    (serial w).Triple (server F cfg) permits i (Critical w i univ A A A)
      (takeSnapshot env offset) fun blob s =>
        ImageOf env offset A blob ∧ Critical w i univ A A A s := by
  refine .bind (snapshotEntries_triple henv (List.nodup_finRange shardCount)) fun entries => ?_
  rintro s ⟨hcap, hs⟩
  have hall : Captures w.env.clock (fun _ => True) A entries :=
    hcap.congr (fun k => by simp) fun _ _ => rfl
  have hnote : (serial w).Triple (server F cfg) permits i (Critical w i univ A A A)
      (perform (.note (.captured env entries))) fun _ => Critical w i univ A A A := by
    refine .perform Critical.stable (fun _ => Critical.stable) (fun s _ hs => ⟨henv, ?_⟩) ?_
    · exact hall.congr (fun _ => Iff.rfl) fun k _ => (hs.logged (mem_univ _)).symm
    · intro s hinv hs x r s' _ hx
      obtain rfl := congrArg Prod.snd (Option.some.inj hx)
      exact ⟨Unseen.keeps ⟨rfl, rfl, rfl, rfl⟩ hinv, hs.unseen ⟨rfl, rfl, rfl, rfl⟩⟩
  refine Discipline.Triple.bind hnote (fun _ => ?_) s hs
  dsimp only
  split
  · next hsize =>
    exact .ret Critical.stable fun s _ hs => ⟨⟨entries, henv ▸ hall, rfl, hsize⟩, hs⟩
  · exact .halt Critical.stable fun s hinv hs => Synced.unwind hinv ⟨A, hA, hs⟩ cfg

end

section

variable {env : Env} (henv : env.clock = w.env.clock)

theorem serial_persisting :
    Persisting (serial w) cfg permits i (fun env => env.clock = w.env.clock) (Synced w i) where
  locking := serial_locking
  file o L ho := by
    refine quiet_triple (.perform ?_)
    cases o <;> first | exact ho.elim | trivial
  snapshot env offset henv := by
    rintro s ⟨A, hA, hs⟩
    exact (takeSnapshot_triple henv hA offset s hs).mono fun _ s' _ h => ⟨A, hA, h.2⟩

include henv

theorem serveReplicaHandoff_triple :
    (serial w).Triple (server F cfg) permits i (Synced w i ∅) (serveReplicaHandoff env)
      fun _ => Synced w i ∅ := by
  have hregister (A : Keyspace F) (hA : A.Storable w.env.clock) (blob : Bytes)
      (hblob : Loads w.env.clock blob A) :
      (serial w).Triple (server F cfg) permits i (Critical w i univ A A A)
        (perform (.fanout (.register blob))) fun _ => Synced w i univ := by
    refine .perform Critical.stable (fun _ => Synced.stable) (fun s _ hs => ?_) ?_
    · have hsent : w.after s.sent = A := funext fun k => hs.sent (mem_univ _)
      change Loads w.env.clock blob (w.after s.sent)
      rwa [hsent]
    · intro s hinv hs x r s' _ hx
      obtain rfl := congrArg Prod.snd (Option.some.inj hx)
      have hsame : Unseen w s { s with fanout := (FanoutOp.exec i (.register blob) s.fanout).2 } :=
        ⟨rfl, rfl, rfl, rfl⟩
      exact ⟨hsame.keeps hinv, A, hA, hs.unseen hsame⟩
  have hoffset : (serial w).Triple (server F cfg) permits i (Synced w i univ)
      (perform (.fanout .masterReplOffset)) fun _ => Synced w i univ :=
    quiet_triple (.perform trivial)
  refine .bind serial_locking.lockAllShards fun _ => ?_
  rintro s ⟨-, hs⟩
  refine Discipline.Triple.bind hoffset (fun offset => ?_) s hs
  rintro s ⟨A, hA, hs⟩
  refine Discipline.Triple.bind (takeSnapshot_triple henv hA _) (fun blob => ?_) s hs
  rintro s ⟨hblob, hs⟩
  have hloads : Loads w.env.clock blob A := ⟨env, _, henv, hblob, hA, offset.toNat_lt⟩
  refine Discipline.Triple.bind (hregister A hA blob hloads) (fun _ => ?_) s hs
  exact .bind unlockShards_triple fun _ => .ret Synced.stable fun _ _ hs => hs

end

theorem serial_upholds : Upholds (serial w) cfg permits i (fun c => c.Admitted w) (Synced w i) where
  stable _ := Synced.stable
  write _ _ hc hL hkeys hwrite := mutateAndLog_triple hc hL hkeys hwrite
  read _ _ hc hread := read_triple hc.clock hread
  publish _ _ _ hname := runPublish_triple hname
  save _ _ hc _ := serial_persisting.handleSave hc.clock
  rewrite _ _ hc _ := serial_persisting.handleBgrewriteaof hc.clock

theorem serial_contract :
    Contract (serial w) cfg permits i (fun c => c.Admitted w) (Synced w i) (Synced w i) where
  lockKeys := serial_locking.lockKeys
  unlock := serial_locking.unlock
  outside := serial_upholds
  inside := serial_upholds
  multi _ hL := appendTransactionMarker_triple hL .multi
  exec _ hL := appendTransactionMarker_triple hL .exec

def Request.Admitted (w : Replayer F) : Request → Prop
  | single c => c.answered = none → c.Admitted w
  | exec queued => ∀ c ∈ queued, c.answered = none → c.Admitted w
  | psync env => env.clock = w.env.clock
  | fsync => True

/-- Every kind of request keeps the discipline. -/
theorem request_triple {r : Request} (h : r.Admitted w) :
    (serial w).Triple (server F cfg) permits i (Synced w i ∅) (r.program cfg)
      fun _ => Synced w i ∅ := by
  cases r with
  | single c => exact serial_contract.single h
  | exec queued => exact serial_contract.handleExec h
  | psync env => exact serveReplicaHandoff_triple h
  | fsync => exact .bind (quiet_triple (.perform trivial)) fun _ => serial_upholds.ret _

end RocketMem
