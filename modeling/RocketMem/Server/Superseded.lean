import RocketMem.Server.ReplicaOffset

namespace RocketMem

open Option Function

variable {F : Type} [F64 F]

/-- What the threads of a node do that may follow a leader: serve a request, be a replication task,
start one (which gets the number `t`) or stop. -/
inductive Role where
  | client (r : Request)
  | task (attempts : List Attempt)
  | start (t : Nat)
  | stop

def Role.program (cfg : Settings) : Role → ServerProgram F Frame
  | client r => r.program cfg
  | task attempts => replicationTask attempts
  | start t => startReplicating t
  | stop => stopReplicating

def following (cfg : Settings) (node : Node F) (roles : Nat → Option Role) : ServerConfig F :=
  ⟨node, fun i => (roles i).map (Role.program cfg)⟩

def Node.Superseded (s : Node F) (t : Nat) : Prop :=
  (s.follower.spawned t).isSome ∧ s.follower.order t < s.follower.superseded

def ServerOp.Inert (cfg : Settings) (i : Nat) (o : ServerOp F) (s : Node F) : Prop :=
  ∀ x r s', (server F cfg).exec i x o s = some (r, s') →
    s'.store = s.store ∧ s'.follower.slaveOffset = s.follower.slaveOffset ∧
      s'.follower.linkUp = s.follower.linkUp

def AbortsSuspended (_ : Nat) (_ : Option Fault) (o : ServerOp F) (s : Node F) : Prop :=
  match o with
  | .follow .abortTask => ∀ t, s.follower.task = some t → s.follower.running t = false
  | _ => True

/-- Every task but the current one has been aborted, and an aborted task does not run. -/
structure TaskInv (f : Follower) : Prop where
  current : ∀ t, (f.spawned t).isSome → f.aborted t = false → f.task = some t
  idle : ∀ t, f.aborted t = true → f.running t = false
  order : ∀ t, (f.spawned t).isSome → f.order t < f.spawns
  superseded : ∀ t, (f.spawned t).isSome → f.order t < f.superseded → f.aborted t = true
  bound : f.superseded ≤ f.spawns

structure TaskRely (mine : Nat → Prop) (i : Nat) (f f' : Follower) : Prop where
  running : f'.running i = f.running i
  lock : f.taskLock = some i ↔ f'.taskLock = some i
  locked : f.taskLock = some i → f'.spawned = f.spawned ∧ f'.spawns = f.spawns
  aborted : ∀ t, f.aborted t = true → f'.aborted t = true
  spawned : ∀ t, (f.spawned t).isSome → (f'.spawned t).isSome ∧ f'.order t = f.order t
  later : ∀ t, f.spawned t = none → (f'.spawned t).isSome → ¬ mine t ∧ f.spawns ≤ f'.order t
  spawns : f.spawns ≤ f'.spawns

theorem TaskRely.refl (mine : Nat → Prop) (i : Nat) (f : Follower) : TaskRely mine i f f where
  running := rfl
  lock := Iff.rfl
  locked _ := ⟨rfl, rfl⟩
  aborted _ h := h
  spawned _ h := ⟨h, rfl⟩
  later t hnone hsome := by
    rw [hnone] at hsome
    cases hsome
  spawns := le_rfl

theorem TaskRely.trans {mine : Nat → Prop} {i : Nat} {f f' f'' : Follower}
    (h : TaskRely mine i f f') (h' : TaskRely mine i f' f'') : TaskRely mine i f f'' where
  running := h'.running.trans h.running
  lock := h.lock.trans h'.lock
  locked hi :=
    ⟨(h'.locked (h.lock.mp hi)).1.trans (h.locked hi).1,
      (h'.locked (h.lock.mp hi)).2.trans (h.locked hi).2⟩
  aborted t ht := h'.aborted t (h.aborted t ht)
  spawned t ht :=
    ⟨(h'.spawned t (h.spawned t ht).1).1, (h'.spawned t (h.spawned t ht).1).2.trans (h.spawned t ht).2⟩
  later t hnone hsome := by
    cases hmid : f'.spawned t with
    | none =>
      obtain ⟨hmine, hle⟩ := h'.later t hmid hsome
      exact ⟨hmine, h.spawns.trans hle⟩
    | some gen =>
      have hmid' : (f'.spawned t).isSome := by rw [hmid]; rfl
      obtain ⟨hmine, hle⟩ := h.later t hnone hmid'
      rw [(h'.spawned t hmid').2]
      exact ⟨hmine, hle⟩
  spawns := h.spawns.trans h'.spawns

def ServerOp.Affects : ServerOp F → Prop
  | engine _ _ | clearShard _ => True
  | follow (.storeLinkUp _) | follow (.storeSlaveOffset _) | follow (.addSlaveOffset _) => True
  | _ => False

def tasks (F : Type) [F64 F] (mine : Nat → Nat → Prop) (isTask : Nat → Prop) :
    Discipline (ServerOp F) (Node F) where
  inv s := TaskInv s.follower
  rely i s s' := TaskRely (mine i) i s.follower s'.follower
  asserts i o s := isTask i → o.Affects → s.follower.running i = true
  absent _ _ := True
  rely_refl i s := .refl _ i s.follower
  rely_trans h h' := h.trans h'
  absent_stable _ _ _ := trivial

section

variable {mine : Nat → Nat → Prop} {isTask : Nat → Prop} {i : Nat} {f f' : Follower}
  {s s' : Node F} {cfg : Settings}

structure SameTasks (f f' : Follower) : Prop where
  taskLock : f'.taskLock = f.taskLock
  task : f'.task = f.task
  spawned : f'.spawned = f.spawned
  aborted : f'.aborted = f.aborted
  running : f'.running = f.running
  spawns : f'.spawns = f.spawns
  order : f'.order = f.order
  superseded : f'.superseded = f.superseded

theorem SameTasks.refl (f : Follower) : SameTasks f f := ⟨rfl, rfl, rfl, rfl, rfl, rfl, rfl, rfl⟩

theorem SameTasks.inv (h : SameTasks f f') (hinv : TaskInv f) : TaskInv f' := by
  refine ⟨?_, ?_, ?_, ?_, ?_⟩
  · rw [h.spawned, h.aborted, h.task]
    exact hinv.current
  · rw [h.aborted, h.running]
    exact hinv.idle
  · rw [h.spawned, h.order, h.spawns]
    exact hinv.order
  · rw [h.spawned, h.order, h.superseded, h.aborted]
    exact hinv.superseded
  · rw [h.superseded, h.spawns]
    exact hinv.bound

theorem SameTasks.rely (h : SameTasks f f') (mine : Nat → Prop) (j : Nat) :
    TaskRely mine j f f' := by
  have hrefl := TaskRely.refl mine j f
  refine ⟨?_, ?_, ?_, ?_, ?_, ?_, ?_⟩
  · rw [h.running]
  · rw [h.taskLock]
  · rw [h.spawned, h.spawns]
    exact hrefl.locked
  · rw [h.aborted]
    exact hrefl.aborted
  · rw [h.spawned, h.order]
    exact hrefl.spawned
  · rw [h.spawned, h.order]
    exact hrefl.later
  · rw [h.spawns]

theorem SameTasks.keeps (h : SameTasks s.follower s'.follower) (hinv : TaskInv s.follower) :
    (tasks F mine isTask).Keeps i s s' :=
  ⟨h.inv hinv, fun j _ => h.rely (mine j) j⟩

def ServerOp.Plain : ServerOp F → Prop
  | follow .loadGeneration | follow (.storeReplica _) | follow (.storeLinkUp _)
  | follow (.storeSlaveOffset _) | follow (.addSlaveOffset _) => True
  | follow _ => False
  | _ => True

theorem ServerOp.Plain.exec {x : Option Fault} {o : ServerOp F} (h : o.Plain) {r : o.Ret}
    (hx : (server F cfg).exec i x o s = some (r, s')) : SameTasks s.follower s'.follower := by
  cases o with
  | follow o =>
    obtain ⟨f, hf, rfl⟩ := exec_follow hx
    cases o with
    | loadGeneration | storeReplica | storeLinkUp | storeSlaveOffset | addSlaveOffset =>
      cases hf
      exact ⟨rfl, rfl, rfl, rfl, rfl, rfl, rfl, rfl⟩
    | _ => exact h.elim
  | _ =>
    rw [ServerOp.Elsewhere.exec hx (by trivial)]
    exact .refl _

theorem TaskInv.running (hinv : TaskInv f) (b : Bool) (hb : b = true → f.aborted i = false) :
    TaskInv { f with running := update f.running i b } := by
  refine ⟨hinv.current, fun t ht => ?_, hinv.order, hinv.superseded, hinv.bound⟩
  change update f.running i b t = false
  by_cases hti : t = i
  · subst hti
    rw [update_self]
    cases b with
    | false => rfl
    | true => exact absurd ht (by rw [hb rfl]; exact Bool.false_ne_true)
  · rw [update_of_ne hti]
    exact hinv.idle t ht

theorem TaskRely.others_running {j : Nat} (hj : j ≠ i) (mine : Nat → Prop) (b : Bool) :
    TaskRely mine j f { f with running := update f.running i b } where
  running := update_of_ne hj _ _
  lock := Iff.rfl
  locked _ := ⟨rfl, rfl⟩
  aborted _ h := h
  spawned _ h := ⟨h, rfl⟩
  later := (TaskRely.refl mine j f).later
  spawns := le_rfl

theorem tasks_unwind (hinv : TaskInv s.follower) :
    (tasks F mine isTask).Keeps i s ((server F cfg).unwind i s) ∧
      (tasks F mine isTask).absent i ((server F cfg).unwind i s) := by
  refine ⟨⟨?_, fun j hj => ?_⟩, trivial⟩
  · have h := hinv.running (i := i) false nofun
    exact ⟨h.current, h.idle, h.order, h.superseded, h.bound⟩
  · have h := TaskRely.others_running (f := s.follower) hj (mine j) false
    refine ⟨h.running, ?_, h.locked, h.aborted, h.spawned, h.later, h.spawns⟩
    change _ ↔ (if s.follower.taskLock = some i then none else s.follower.taskLock) = some j
    split
    · next hi =>
      rw [hi]
      exact ⟨fun hsame => absurd (some.inj hsame).symm hj, nofun⟩
    · rfl

end

section

variable {mine : Nat → Nat → Prop} {isTask : Nat → Prop} {i : Nat} {cfg : Settings}
  {permits : Nat → Option Fault → ServerOp F → Node F → Prop} {α : Type}

def Polled (i : Nat) (s : Node F) : Prop := s.follower.running i = true

theorem Polled.stable : (tasks F mine isTask).Stable i (Polled i) :=
  fun _ _ hrely _ h => hrely.running.trans h

theorem plain_triple {p : ServerProgram F α} (hp : p.Calls ServerOp.Plain) :
    (tasks F mine isTask).Triple (server F cfg) permits i (Polled i) p fun _ => Polled i := by
  refine .of_calls hp Polled.stable (fun s hinv _ => tasks_unwind hinv) (fun _ _ s _ hs _ _ => hs) ?_
  intro o ho s hinv hs x r s' _ hx
  exact ⟨(ho.exec hx).keeps hinv, (congrFun (ho.exec hx).running i).trans hs⟩

theorem suspend_triple :
    (tasks F mine isTask).Triple (server F cfg) permits i (Polled i)
      (perform (.follow .suspend)) fun _ _ => True := by
  refine .perform Polled.stable (fun _ _ _ _ _ _ => trivial) (fun _ _ _ _ h => h.elim) ?_
  intro s hinv hs x r s' _ hx
  obtain ⟨f, hf, rfl⟩ := exec_follow hx
  cases hf
  exact ⟨⟨hinv.running false nofun, fun j hj => .others_running hj (mine j) false⟩, trivial⟩

theorem resume_triple :
    (tasks F mine isTask).Triple (server F cfg) permits i (fun _ => True)
      (perform (.follow .resume)) fun dropped s => dropped = false → Polled i s := by
  refine .perform (fun _ _ _ _ _ => trivial) (fun dropped s s' hrely hinv h hd => ?_)
    (fun _ _ _ _ h => h.elim) ?_
  · exact Polled.stable s s' hrely hinv (h hd)
  · intro s hinv _ x r s' _ hx
    obtain ⟨f, hf, rfl⟩ := exec_follow hx
    simp only [FollowerOp.exec] at hf
    split at hf
    · cases hf
      exact ⟨(SameTasks.refl _).keeps hinv, fun h => by cases h⟩
    · next hnot =>
      cases hf
      refine ⟨⟨hinv.running true fun _ => Bool.eq_false_iff.mpr hnot, fun j hj =>
        .others_running hj (mine j) true⟩, fun _ => update_self ..⟩

theorem await_triple (ready : Bool) :
    (tasks F mine isTask).Triple (server F cfg) permits i (Polled i) (await ready)
      fun _ => Polled i := by
  unfold await
  split
  · exact .ret Polled.stable fun _ _ hs => hs
  · refine .bind suspend_triple fun _ => .bind resume_triple fun dropped => ?_
    have hstable : (tasks F mine isTask).Stable i fun s => dropped = false → Polled i s :=
      fun s s' hrely hinv h hd => Polled.stable s s' hrely hinv (h hd)
    cases dropped with
    | false => exact .ret hstable fun _ _ hs => hs rfl
    | true => exact .halt hstable fun s hinv _ => tasks_unwind hinv

theorem polled_following : Following (tasks F mine isTask) cfg permits i (Polled i) where
  stable := Polled.stable
  unwind _ hinv _ := tasks_unwind hinv
  await := await_triple
  note o ho := by
    refine plain_triple (.perform ?_)
    cases o with
    | loadGeneration | storeLinkUp | storeSlaveOffset | addSlaveOffset => trivial
    | _ => exact ho.elim
  load env blob := plain_triple (loadSnapshot_calls (fun _ => trivial) (fun _ => trivial)
    (fun _ _ => trivial) env blob)
  apply env frame := plain_triple (applyReplicated_calls (fun _ => trivial) (fun _ _ => trivial)
    (fun _ => trivial) trivial (fun _ _ => trivial) env frame)

theorem taskDone_polled :
    (tasks F mine isTask).Triple (server F cfg) permits i (Polled i) taskDone fun _ _ => True :=
  .bind suspend_triple fun _ => .ret (fun _ _ _ _ _ => trivial) fun _ _ _ => trivial

theorem replicationTask_triple (attempts : List Attempt) :
    (tasks F mine isTask).Triple (server F cfg) permits i (fun _ => True)
      (replicationTask attempts) fun _ _ => True := by
  have hpoll : (tasks F mine isTask).Triple (server F cfg) permits i (fun _ => True)
      (perform (.follow .poll)) fun gen s => gen.isSome → Polled i s := by
    refine .perform (fun _ _ _ _ _ => trivial) (fun gen s s' hrely hinv h hg => ?_)
      (fun _ _ _ _ h => h.elim) ?_
    · exact Polled.stable s s' hrely hinv (h hg)
    · intro s hinv _ x r s' _ hx
      obtain ⟨f, hf, rfl⟩ := exec_follow hx
      simp only [FollowerOp.exec] at hf
      split at hf
      · cases hf
      · split at hf
        · cases hf
          exact ⟨(SameTasks.refl _).keeps hinv, fun h => by cases h⟩
        · next hnot =>
          cases hf
          exact ⟨⟨hinv.running true fun _ => Bool.eq_false_iff.mpr hnot, fun j hj =>
            .others_running hj (mine j) true⟩, fun _ => update_self ..⟩
  refine .bind hpoll fun gen => ?_
  cases gen with
  | none => exact .ret (fun _ _ _ _ _ h => by cases h) fun _ _ _ => trivial
  | some gen =>
    have hloop : (tasks F mine isTask).Triple (server F cfg) permits i (Polled i)
        (replicationClientLoop gen attempts) fun _ _ => True :=
      polled_following.replicationClientLoop taskDone_polled gen attempts
    exact hloop.conseq (fun s hs => hs rfl) fun _ _ _ h => h

end

section

variable {mine : Nat → Nat → Prop} {isTask : Nat → Prop} {i : Nat} {cfg : Settings}

def Older (n : Nat) (f : Follower) : Prop :=
  n ≤ f.spawns ∧ ∀ t, (f.spawned t).isSome → f.order t < n → f.aborted t = true

theorem Older.rely {n : Nat} {m : Nat → Prop} {f f' : Follower} (hrely : TaskRely m i f f')
    (h : Older n f) : Older n f' := by
  refine ⟨h.1.trans hrely.spawns, fun t hsome ht => ?_⟩
  cases hold : f.spawned t with
  | none =>
    have hlater := (hrely.later t hold hsome).2
    have := h.1
    omega
  | some gen =>
    have hold' : (f.spawned t).isSome := by rw [hold]; rfl
    rw [(hrely.spawned t hold').2] at ht
    exact hrely.aborted t (h.2 t hold' ht)

structure Locked (mine : Nat → Nat → Prop) (i : Nat) (s : Node F) : Prop where
  lock : s.follower.taskLock = some i
  fresh : ∀ t, mine i t → s.follower.spawned t = none

structure Aborted (mine : Nat → Nat → Prop) (i : Nat) (s : Node F) : Prop extends
    Locked mine i s where
  aborted : ∀ t, (s.follower.spawned t).isSome → s.follower.aborted t = true

def Fresh (mine : Nat → Nat → Prop) (i : Nat) (s : Node F) : Prop :=
  ∀ t, mine i t → s.follower.spawned t = none

theorem Fresh.stable : (tasks F mine isTask).Stable i (Fresh mine i) := by
  intro s s' hrely _ h t ht
  cases hnew : s'.follower.spawned t with
  | none => rfl
  | some gen =>
    have hsome : (s'.follower.spawned t).isSome := by rw [hnew]; rfl
    exact absurd ht (hrely.later t (h t ht) hsome).1

theorem Locked.stable : (tasks F mine isTask).Stable i (Locked mine i) := by
  intro s s' hrely hinv h
  exact ⟨hrely.lock.mp h.lock, Fresh.stable s s' hrely hinv h.fresh⟩

theorem Aborted.stable : (tasks F mine isTask).Stable i (Aborted mine i) := by
  intro s s' hrely hinv h
  refine ⟨Locked.stable s s' hrely hinv h.toLocked, fun t ht => ?_⟩
  rw [(hrely.locked h.lock).1] at ht
  exact hrely.aborted t (h.aborted t ht)

theorem counted_stable (n : Nat) :
    (tasks F mine isTask).Stable i fun s => s.follower.spawns = n ∧ Aborted mine i s := by
  rintro s s' hrely hinv ⟨hn, h⟩
  exact ⟨(hrely.locked h.lock).2.trans hn, Aborted.stable s s' hrely hinv h⟩

theorem done_stable (n : Nat) :
    (tasks F mine isTask).Stable i fun s => s.follower.taskLock = some i ∧ Older n s.follower :=
  fun _ _ hrely _ h => ⟨hrely.lock.mp h.1, h.2.rely hrely⟩

theorem older_stable (n : Nat) : (tasks F mine isTask).Stable i fun s => Older n s.follower :=
  fun _ _ hrely _ h => h.rely hrely

abbrev CallTriple (F : Type) [F64 F] {α : Type} (mine : Nat → Nat → Prop) (isTask : Nat → Prop)
    (cfg : Settings) (i : Nat) (P : Node F → Prop) (p : ServerProgram F α) (Q : α → Node F → Prop) :
    Prop :=
  (tasks F mine isTask).Triple (server F cfg) AbortsSuspended i P p Q

theorem lockTask_triple :
    CallTriple F mine isTask cfg i (Fresh mine i)
      (perform (.follow .lockTask)) fun _ => Locked mine i := by
  refine .perform Fresh.stable (fun _ => Locked.stable) (fun _ _ _ _ h => h.elim) ?_
  intro s hinv hs x r s' _ hx
  obtain ⟨f, hf, rfl⟩ := exec_follow hx
  simp only [FollowerOp.exec] at hf
  split at hf
  · next hfree =>
    cases hf
    refine ⟨⟨⟨hinv.current, hinv.idle, hinv.order, hinv.superseded, hinv.bound⟩, fun j hj => ?_⟩,
      rfl, hs⟩
    have hrefl := TaskRely.refl (mine j) j s.follower
    refine ⟨rfl, ?_, hrefl.locked, hrefl.aborted, hrefl.spawned, hrefl.later, hrefl.spawns⟩
    rw [hfree]
    exact ⟨(fun h => by cases h), fun h => absurd (some.inj h).symm hj⟩
  · cases hf

theorem abortTask_triple :
    CallTriple F mine isTask cfg i (Locked mine i)
      (perform (.follow .abortTask)) fun _ => Aborted mine i := by
  refine .perform Locked.stable (fun _ => Aborted.stable) (fun _ _ _ _ h => h.elim) ?_
  intro s hinv hs x r s' hpermits hx
  obtain ⟨f, hf, rfl⟩ := exec_follow hx
  simp only [FollowerOp.exec] at hf
  split at hf
  · next hnone =>
    cases hf
    refine ⟨(SameTasks.refl _).keeps hinv, hs, fun t ht => ?_⟩
    by_contra hnot
    have hcurrent := hinv.current t ht (Bool.eq_false_iff.mpr hnot)
    rw [hnone] at hcurrent
    cases hcurrent
  · next t htask =>
    cases hf
    have hmono (t' : Nat) (h : s.follower.aborted t' = true) :
        update s.follower.aborted t true t' = true := by
      rw [update_apply]
      split
      · rfl
      · exact h
    have hall (t' : Nat) (h : (s.follower.spawned t').isSome) :
        update s.follower.aborted t true t' = true := by
      cases hold : s.follower.aborted t' with
      | true => exact hmono t' hold
      | false =>
        obtain rfl := some.inj ((hinv.current t' h hold).symm.trans htask)
        exact update_self ..
    refine ⟨⟨⟨fun t' h hnot => ?_, fun t' h => ?_, hinv.order, fun t' h _ => hall t' h, hinv.bound⟩,
      fun j hj => ?_⟩, ⟨hs.lock, hs.fresh⟩, hall⟩
    · exact absurd (hall t' h) (Bool.eq_false_iff.mp hnot)
    · by_cases htt : t' = t
      · rw [htt]
        exact hpermits t htask
      · exact hinv.idle t' ((update_of_ne htt _ _).symm.trans h)
    · have hrefl := TaskRely.refl (mine j) j s.follower
      exact ⟨rfl, Iff.rfl, hrefl.locked, hmono, hrefl.spawned, hrefl.later, hrefl.spawns⟩

theorem nextGeneration_triple :
    CallTriple F mine isTask cfg i (Aborted mine i)
      (perform (.follow .nextGeneration)) fun r s => s.follower.spawns = r.2 ∧ Aborted mine i s := by
  refine .perform Aborted.stable (fun r => counted_stable r.2) (fun _ _ _ _ h => h.elim) ?_
  intro s hinv hs x r s' _ hx
  obtain ⟨f, hf, rfl⟩ := exec_follow hx
  cases hf
  exact ⟨SameTasks.keeps ⟨rfl, rfl, rfl, rfl, rfl, rfl, rfl, rfl⟩ hinv, rfl, ⟨hs.lock, hs.fresh⟩,
    hs.aborted⟩

theorem Aborted.older {n : Nat} {s : Node F} (hn : s.follower.spawns = n) (h : Aborted mine i s) :
    Older n s.follower :=
  ⟨hn.ge, fun t ht _ => h.aborted t ht⟩

theorem spawn_triple {t : Nat} (ht : mine i t) (hunique : ∀ j, mine j t → j = i) (gen : UInt64)
    (n : Nat) :
    CallTriple F mine isTask cfg i
      (fun s => s.follower.spawns = n ∧ Aborted mine i s) (perform (.follow (.spawn t gen)))
      fun _ s => s.follower.taskLock = some i ∧ Older n s.follower := by
  refine .perform (counted_stable n) (fun _ => done_stable n) (fun _ _ _ _ h => h.elim) ?_
  rintro s hinv ⟨hn, hs⟩ x r s' - hx
  obtain ⟨f, hf, rfl⟩ := exec_follow hx
  cases hf
  have hnone := hs.fresh t ht
  have hspawned (t' : Nat) (htt : t' ≠ t)
      (h : (update s.follower.spawned t (some gen) t').isSome) :
      (s.follower.spawned t').isSome := by
    rwa [update_of_ne htt] at h
  have horder (t' : Nat) (htt : t' ≠ t) :
      update s.follower.order t s.follower.spawns t' = s.follower.order t' :=
    update_of_ne htt _ _
  have hself : update s.follower.order t s.follower.spawns t = s.follower.spawns := update_self ..
  refine ⟨⟨⟨fun t' h hnot => ?_, hinv.idle, fun t' h => ?_, fun t' h hlt => ?_, ?_⟩, fun j hj => ?_⟩,
    hs.lock, ?_, fun t' h hlt => ?_⟩
  · by_cases htt : t' = t
    · rw [htt]
    · exact absurd (hs.aborted t' (hspawned t' htt h)) (Bool.eq_false_iff.mp hnot)
  · by_cases htt : t' = t
    · subst htt
      exact hself.trans_lt (Nat.lt_succ_self _)
    · exact (horder t' htt).trans_lt
        ((hinv.order t' (hspawned t' htt h)).trans (Nat.lt_succ_self _))
  · by_cases htt : t' = t
    · subst htt
      exact absurd (hself.symm.trans_lt hlt) (Nat.not_lt.mpr hinv.bound)
    · exact hinv.superseded t' (hspawned t' htt h) ((horder t' htt).symm.trans_lt hlt)
  · exact hinv.bound.trans (Nat.le_succ _)
  · have hne (t' : Nat) (h : (s.follower.spawned t').isSome) : t' ≠ t := by
      rintro rfl
      rw [hnone] at h
      cases h
    refine ⟨rfl, Iff.rfl, fun h => ?_, fun _ h => h, fun t' h => ⟨?_, horder t' (hne t' h)⟩,
      fun t' hold h => ?_, Nat.le_succ _⟩
    · exact absurd (some.inj (hs.lock.symm.trans h)).symm hj
    · change (update s.follower.spawned t (some gen) t').isSome
      rwa [update_of_ne (hne t' h)]
    · by_cases htt : t' = t
      · subst htt
        exact ⟨fun hmine => hj (hunique j hmine), hself.ge⟩
      · have hsome := hspawned t' htt h
        rw [hold] at hsome
        cases hsome
  · exact hn.ge.trans (Nat.le_succ _)
  · by_cases htt : t' = t
    · subst htt
      have hlt' : s.follower.spawns < n := hself.symm.trans_lt hlt
      omega
    · exact hs.aborted t' (hspawned t' htt h)

theorem store_triple {P : Node F → Prop} (hP : (tasks F mine isTask).Stable i P) {o : FollowerOp}
    (ho : (ServerOp.follow (F := F) o).Plain) (hi : ¬ isTask i)
    (hstep : ∀ s s', SameTasks s.follower s'.follower → P s → P s') :
    CallTriple F mine isTask cfg i P (perform (.follow o)) fun _ => P := by
  refine .perform hP (fun _ => hP) (fun _ _ _ h => absurd h hi) ?_
  intro s hinv hs x r s' _ hx
  exact ⟨(ho.exec hx).keeps hinv, hstep s s' (ho.exec hx) hs⟩

theorem Older.same {n : Nat} {f f' : Follower} (h : SameTasks f f') (hold : Older n f) :
    Older n f' :=
  hold.rely (h.rely (fun _ => False) 0)

theorem unlockTask_triple (n : Nat) :
    CallTriple F mine isTask cfg i
      (fun s => s.follower.taskLock = some i ∧ Older n s.follower) (perform (.follow .unlockTask))
      fun _ s => Older n s.follower := by
  refine .perform (done_stable n) (fun _ => older_stable n) (fun _ _ _ _ h => h.elim) ?_
  rintro s hinv ⟨hlock, hold⟩ x r s' - hx
  obtain ⟨f, hf, rfl⟩ := exec_follow hx
  cases hf
  refine ⟨⟨⟨hinv.current, hinv.idle, hinv.order, hinv.superseded, hinv.bound⟩, fun j hj => ?_⟩, hold⟩
  have hrefl := TaskRely.refl (mine j) j s.follower
  refine ⟨rfl, ?_, hrefl.locked, hrefl.aborted, hrefl.spawned, hrefl.later, hrefl.spawns⟩
  rw [hlock]
  exact ⟨fun h => absurd (some.inj h).symm hj, nofun⟩

theorem returned_triple (n : Nat) :
    CallTriple F mine isTask cfg i (fun s => Older n s.follower)
      (perform (.follow (.returned n))) fun _ _ => True := by
  refine .perform (older_stable n) (fun _ _ _ _ _ _ => trivial) (fun _ _ _ _ h => h.elim) ?_
  intro s hinv hold x r s' _ hx
  obtain ⟨f, hf, rfl⟩ := exec_follow hx
  cases hf
  refine ⟨⟨⟨hinv.current, hinv.idle, hinv.order, fun t ht hlt => ?_, max_le hinv.bound hold.1⟩,
    fun j _ => ?_⟩, trivial⟩
  · rcases lt_max_iff.mp hlt with hlt | hlt
    · exact hinv.superseded t ht hlt
    · exact hold.2 t ht hlt
  · have hrefl := TaskRely.refl (mine j) j s.follower
    exact ⟨rfl, Iff.rfl, hrefl.locked, hrefl.aborted, hrefl.spawned, hrefl.later, hrefl.spawns⟩

theorem ret_done (a : Frame) :
    CallTriple F mine isTask cfg i (fun _ => True)
      (pure a : ServerProgram F Frame) fun _ _ => True :=
  .ret (fun _ _ _ _ _ => trivial) fun _ _ _ => trivial

theorem startReplicating_triple {t : Nat} (ht : mine i t) (hunique : ∀ j, mine j t → j = i)
    (hi : ¬ isTask i) :
    CallTriple F mine isTask cfg i (Fresh mine i) (startReplicating t) fun _ _ => True := by
  refine .bind lockTask_triple fun _ => .bind abortTask_triple fun _ =>
    .bind nextGeneration_triple fun r => ?_
  refine .bind (spawn_triple ht hunique r.1 r.2) fun _ => ?_
  refine .bind (store_triple (done_stable r.2) trivial hi fun s s' h hs =>
    ⟨h.taskLock.trans hs.1, hs.2.same h⟩) fun _ => ?_
  exact .bind (unlockTask_triple r.2) fun _ => .bind (returned_triple r.2) fun _ => ret_done _

theorem stopReplicating_triple (hi : ¬ isTask i) :
    CallTriple F mine isTask cfg i (Fresh mine i) stopReplicating fun _ _ => True := by
  refine .bind lockTask_triple fun _ => .bind abortTask_triple fun _ =>
    .bind nextGeneration_triple fun r => ?_
  have hstore (o : FollowerOp) (ho : (ServerOp.follow (F := F) o).Plain) :
      CallTriple F mine isTask cfg i
        (fun s => s.follower.taskLock = some i ∧ Older r.2 s.follower) (perform (.follow o))
        fun _ s => s.follower.taskLock = some i ∧ Older r.2 s.follower :=
    store_triple (done_stable r.2) ho hi fun s s' h hs => ⟨h.taskLock.trans hs.1, hs.2.same h⟩
  rintro s ⟨hn, hs⟩
  refine Discipline.Triple.bind (hstore (.storeReplica false) trivial) (fun _ => ?_) s
    ⟨hs.lock, hs.older hn⟩
  refine .bind (hstore (.storeLinkUp false) trivial) fun _ => ?_
  exact .bind (unlockTask_triple r.2) fun _ => .bind (returned_triple r.2) fun _ => ret_done _

end

section

variable {cfg : Settings} {node : Node F} {roles : Nat → Option Role} {final : ServerConfig F}

structure Node.NeverFollowed (s : Node F) : Prop where
  spawned : ∀ t, s.follower.spawned t = none
  running : ∀ t, s.follower.running t = false
  superseded : s.follower.superseded ≤ s.follower.spawns

theorem client_triple {i : Nat} {mine : Nat → Nat → Prop} {isTask : Nat → Prop} (hi : ¬ isTask i)
    (r : Request) :
    CallTriple F mine isTask cfg i (fun _ => True) (r.program cfg) fun _ _ => True := by
  have hcalls : (r.program cfg).Calls (ServerOp.Elsewhere (F := F)) :=
    request_calls cfg (fun _ h => h.elsewhere) r
  refine .of_calls hcalls (fun _ _ _ _ _ => trivial) (fun s hinv _ => tasks_unwind hinv)
    (fun _ _ _ _ _ h => absurd h hi) ?_
  intro o ho s hinv _ x r s' _ hx
  refine ⟨SameTasks.keeps ?_ hinv, trivial⟩
  rw [ho.exec hx]
  exact .refl _

theorem following_sustains (hnode : node.NeverFollowed)
    (hunique : ∀ i j t, roles i = some (.start t) → roles j = some (.start t) → j = i) :
    (tasks F (fun i t => roles i = some (.start t)) fun i => ∃ a, roles i = some (.task a)).Sustains
      (server F cfg) AbortsSuspended (fun _ _ _ => True) (following cfg node roles) := by
  have hnone (t : Nat) (h : (node.follower.spawned t).isSome) : False := by
    rw [hnode.spawned t] at h
    cases h
  refine ⟨⟨fun t h _ => (hnone t h).elim, fun t _ => hnode.running t, fun t h => (hnone t h).elim,
    fun t h _ => (hnone t h).elim, hnode.superseded⟩, fun i p hp => ?_, fun _ _ => trivial⟩
  obtain ⟨role, hrole, rfl⟩ := map_eq_some_iff.mp hp
  cases role with
  | client r =>
    refine client_triple (fun ⟨a, ha⟩ => ?_) r node trivial
    cases hrole.symm.trans ha
  | task attempts => exact replicationTask_triple attempts node trivial
  | start t =>
    refine startReplicating_triple hrole (fun j hj => hunique i j t hrole hj) (fun ⟨a, ha⟩ => ?_) node
      fun t _ => hnode.spawned t
    cases hrole.symm.trans ha
  | stop =>
    refine stopReplicating_triple (fun ⟨a, ha⟩ => ?_) node fun t _ => hnode.spawned t
    cases hrole.symm.trans ha

theorem inert_of_not_affects {i : Nat} {o : ServerOp F} (h : ¬ o.Affects) (s : Node F) :
    o.Inert cfg i s := by
  intro x r s' hx
  cases o with
  | engine | clearShard => exact absurd trivial h
  | note n =>
    obtain rfl := some.inj (congrArg (Option.map Prod.snd) hx)
    cases n <;> exact ⟨rfl, rfl, rfl⟩
  | follow o =>
    obtain ⟨f, hf, rfl⟩ := exec_follow hx
    cases o with
    | storeLinkUp | storeSlaveOffset | addSlaveOffset => exact absurd trivial h
    | lockTask | abortTask | resume =>
      simp only [FollowerOp.exec] at hf
      split at hf
      all_goals cases hf
      all_goals exact ⟨rfl, rfl, rfl⟩
    | poll =>
      simp only [FollowerOp.exec] at hf
      split at hf
      · cases hf
      · split at hf <;> cases hf <;> exact ⟨rfl, rfl, rfl⟩
    | _ =>
      cases hf
      exact ⟨rfl, rfl, rfl⟩
  | _ =>
    have hfollower := ServerOp.Elsewhere.exec hx (by trivial)
    rw [hfollower]
    exact ⟨(ServerOp.Storeless.exec hx (by trivial)).1, rfl, rfl⟩

/-- A task that has been superseded no longer changes anything. -/
theorem superseded_task_inert (hnode : node.NeverFollowed)
    (hunique : ∀ i j t, roles i = some (.start t) → roles j = some (.start t) → j = i)
    (hrun : (server F cfg).Reaches AbortsSuspended (following cfg node roles) final) {i : Nat}
    {attempts : List Attempt} (hrole : roles i = some (.task attempts))
    (hsuperseded : final.shared.Superseded i) {o : ServerOp F}
    {k : o.Ret → ServerProgram F Frame} (hnext : final.threads i = some (.call o k)) :
    o.Inert cfg i final.shared := by
  have hnow := Discipline.sound (following_sustains hnode hunique) hrun
  refine inert_of_not_affects (fun haffects => ?_) final.shared
  have hrunning : final.shared.follower.running i = true :=
    (hnow.threads i _ hnext final.shared (.refl _ _ _) hnow.inv).1 ⟨attempts, hrole⟩ haffects
  have haborted := hnow.inv.superseded i hsuperseded.1 hsuperseded.2
  rw [hnow.inv.idle i haborted] at hrunning
  cases hrunning

end

def replacing (a : Attempt) : Nat → Option Role
  | 0 => some (.start 1)
  | 1 => some (.task [a])
  | 2 => some .stop
  | 3 => some (.client (.single (setCommand plainWords)))
  | _ => none

theorem replacing_unique (a : Attempt) (i j t : Nat) (hi : replacing a i = some (.start t))
    (hj : replacing a j = some (.start t)) : j = i := by
  match i, j with
  | 0, 0 => rfl
  | 0, 1 | 0, 2 | 0, 3 | 0, j + 4 => cases hj
  | 1, _ | 2, _ | 3, _ | i + 4, _ => cases hi

theorem neverFollowed_new (cfg : Settings) : (Node.new cfg : Node F).NeverFollowed :=
  ⟨fun _ => rfl, fun _ => rfl, le_rfl⟩

def linked (cfg : Settings) (f : Follower) : Node Score := { Node.new cfg with follower := f }

def begun : Follower :=
  { Follower.new with
    generation := 1
    task := some 1
    spawned := update (fun _ => none) 1 (some 1)
    isReplica := true
    spawns := 1
    order := update (fun _ => 0) 1 0 }

theorem start_alone (cfg : Settings) :
    (server Score cfg).Runs AbortsSuspended 0 (startReplicating 1) (Node.new cfg)
      (.ret okReply) (linked cfg begun) :=
  .call none trivial rfl <| .call none nofun rfl <| .call none trivial rfl <|
    .call none trivial rfl <| .call none trivial rfl <| .call none trivial rfl <|
    .call none trivial rfl <| .refl _ _

def ended (f : Follower) : Follower :=
  { f with
    generation := f.generation + 1
    taskLock := none
    task := none
    aborted := update f.aborted 1 true
    isReplica := false
    linkUp := false
    superseded := max f.superseded f.spawns }

theorem stop_alone {cfg : Settings} {s : Node F} {permits : Nat → Option Fault → ServerOp F →
      Node F → Prop} (hlock : s.follower.taskLock = none) (htask : s.follower.task = some 1)
    (hpermits : ∀ x o s, AbortsSuspended 2 x o s → permits 2 x o s)
    (habort : permits 2 none (.follow .abortTask)
      { s with follower := { s.follower with taskLock := some 2 } }) :
    (server F cfg).Runs permits 2 stopReplicating s (.ret okReply)
      { s with follower := ended s.follower } := by
  have hlocked : (server F cfg).exec 2 none (.follow .lockTask) s =
      some ((), { s with follower := { s.follower with taskLock := some 2 } }) := by
    simp only [server, ServerOp.exec, FollowerOp.exec, hlock, map_some]
  have haborted : (server F cfg).exec 2 none (.follow .abortTask)
      { s with follower := { s.follower with taskLock := some 2 } } =
      some ((), { s with follower := { s.follower with
        taskLock := some 2
        task := none
        aborted := update s.follower.aborted 1 true } }) := by
    simp only [server, ServerOp.exec, FollowerOp.exec, htask, map_some]
  exact .call none (hpermits _ _ _ trivial) hlocked <| .call none habort haborted <|
    .call none (hpermits _ _ _ trivial) rfl <| .call none (hpermits _ _ _ trivial) rfl <|
    .call none (hpermits _ _ _ trivial) rfl <| .call none (hpermits _ _ _ trivial) rfl <|
    .call none (hpermits _ _ _ trivial) rfl <| .refl _ _

def unconnected : Attempt := ⟨⟨false, Env.still⟩, [], true, []⟩

def waiting : Follower :=
  { begun with running := update (update begun.running 1 true) 1 false }

theorem task_waits (cfg : Settings) :
    ∃ k, (server Score cfg).Runs AbortsSuspended 1 (replicationTask [unconnected])
      (linked cfg begun) (.call (.follow .resume) k) (linked cfg waiting) :=
  ⟨_, .call none trivial rfl <| .call none trivial rfl <| .call none trivial rfl <| .refl _ _⟩

theorem superseded_task_inert_waiting :
    ∃ (final : ServerConfig Score) (k : Bool → ServerProgram Score Frame),
      (server Score .eachSecond).Reaches AbortsSuspended
        (following .eachSecond (Node.new .eachSecond) (replacing unconnected)) final ∧
      final.shared.Superseded 1 ∧ final.threads 1 = some (.call (.follow .resume) k) ∧
      (ServerOp.follow .resume).Inert .eachSecond 1 final.shared := by
  have hbegin : (server Score .eachSecond).Reaches AbortsSuspended _
    (following .eachSecond (Node.new .eachSecond) (replacing unconnected)) := .refl
  obtain ⟨k, htask⟩ := task_waits .eachSecond
  have hstop : (server Score .eachSecond).Runs AbortsSuspended 2 stopReplicating
      (linked .eachSecond waiting) (.ret okReply)
      (linked .eachSecond (ended waiting)) := by
    refine stop_alone rfl rfl (fun _ _ _ h => h) fun t ht => ?_
    obtain rfl := some.inj ht
    rfl
  have hreach := ((hbegin.runs (i := 0) rfl (start_alone _)).runs (i := 1) rfl htask).runs (i := 2)
    rfl hstop
  have hsuperseded : (linked .eachSecond (ended waiting)).Superseded 1 := ⟨rfl, Nat.zero_lt_one⟩
  exact ⟨_, k, hreach, hsuperseded, rfl, superseded_task_inert (neverFollowed_new _)
    (replacing_unique unconnected) hreach rfl hsuperseded rfl⟩

def emptyLeader : Attempt :=
  ⟨⟨true, Env.still⟩, leBytes 8 (emptyImage 0).length ++ (emptyImage 0 ++ []), true, []⟩

theorem syncOnce_emptyLeader : syncOnce emptyLeader.wire = .synced (emptyImage 0) [] := by
  refine syncOnce_prefixed _ _ (serialize_new_length _) ?_
  rw [emptyImage, serialize_length]
  decide

def polled : Follower := { begun with running := update begun.running 1 true }

theorem task_syncs (cfg : Settings) (permits : Nat → Option Fault → ServerOp Score →
      Node Score → Prop) (hfollow : ∀ o s, permits 1 none (.follow o) s) :
    ∃ task : ServerProgram Score (Option Nat) → ServerProgram Score Frame,
      (∀ o (k : o.Ret → _), task (.call o k) = .call o fun r => task (k r)) ∧
      (∀ p q s s', (server Score cfg).Runs permits 1 p s q s' →
        (server Score cfg).Runs permits 1 (task p) s (task q) s') ∧
      ∀ s : Node Score, (server Score cfg).Runs permits 1 (replicationTask [emptyLeader])
        { s with follower := begun } (task (loadSnapshot Env.still (emptyImage 0)))
        { s with follower := polled } := by
  have hconnect : ∃ sync : ServerProgram Score (Option Nat) → ServerProgram Score SyncEnd,
      (∀ o (k : o.Ret → _), sync (.call o k) = .call o fun r => sync (k r)) ∧
      (∀ p q s s', (server Score cfg).Runs permits 1 p s q s' →
        (server Score cfg).Runs permits 1 (sync p) s (sync q) s') ∧
      ∀ s : Node Score, (server Score cfg).Runs permits 1 (connectAndSync 1 emptyLeader)
        { s with follower := polled } (sync (loadSnapshot Env.still (emptyImage 0)))
        { s with follower := polled } := by
    unfold connectAndSync
    rw [syncOnce_emptyLeader]
    exact ⟨fun p => p >>= _, fun _ _ => rfl, fun _ _ _ _ h => h.within _,
      fun s => .call none (hfollow _ _) rfl (.refl _ _)⟩
  obtain ⟨sync, hcall, hwithin, hsync⟩ := hconnect
  refine ⟨fun p => sync p >>= fun _ => do
    perform (.follow (.storeLinkUp false))
    await false
    replicationClientLoop 1 [], fun o k => ?_, fun p q s s' h => (hwithin p q s s' h).within _,
    fun s => ?_⟩
  · dsimp only
    rw [hcall]
    rfl
  · exact .call none (hfollow _ _) rfl <| .call none (hfollow _ _) rfl <| (hsync s).within _

theorem task_loads (cfg : Settings) :
    ∃ k, (server Score cfg).Runs (fun _ _ _ _ => True) 1 (replicationTask [emptyLeader])
      (linked cfg begun) (.call (.clearShard firstShard) k) ((linked cfg polled).note .loading) := by
  obtain ⟨loaded, hload⟩ := deserialize_emptyImage 0
  obtain ⟨k, hloads⟩ := loadSnapshot_begins cfg 1 (fun _ _ _ _ => True) (fun _ _ _ => trivial) hload
    (linked cfg polled)
  obtain ⟨task, hcall, hwithin, hsync⟩ := task_syncs cfg (fun _ _ _ _ => True) fun _ _ => trivial
  refine ⟨fun r => task (k r), ?_⟩
  rw [← hcall]
  exact (hsync (Node.new cfg)).trans (hwithin _ _ _ _ hloads)

theorem live_clearShard {c : Clock} {st : Store F} {key : Bytes} {j : Fin shardCount}
    (h : shardIndex key = j) : (st.clearShard j).live c key = none := by
  subst h
  change (update st.shards (shardIndex key) (st.shards (shardIndex key)).clear
    (shardIndex key)).slot c key = none
  rw [update_self]
  rfl

theorem live_plainSet :
    ((runEngine Env.still (dispatch Env.still
      (setFrame (txt "k") (txt "v") plainWords)) (Store.new : Store Score)).2.live .zero
        (txt "k")).isSome := by
  have hmem : Env.still.maxmemory = none := rfl
  have hlive := (runEngine_live (dispatch_atomic hmem (setFrame_isWrite (txt "k") (txt "v")
    plainWords)).touches Env.still (Store.new : Store Score)).2
  rw [runKeyspace_setFrame hmem _ _ setTtl_plainWords (by decide)] at hlive
  dsimp only at hlive
  have hslot := congrFun hlive (txt "k")
  rw [update_self] at hslot
  exact (congrArg Option.isSome hslot).trans (by decide)

/-- A task that is about to load a snapshot when it is stopped erases a key that is written later. -/
theorem superseded_task_erases :
    ∃ (final : ServerConfig Score) (k : Unit → ServerProgram Score Frame),
      (server Score .eachSecond).Reaches (fun _ _ _ _ => True)
        (following .eachSecond (Node.new .eachSecond) (replacing emptyLeader)) final ∧
      final.shared.Superseded 1 ∧ final.threads 2 = some (.ret okReply) ∧
      final.threads 3 = some (.ret okReply) ∧
      (final.shared.store.live .zero (txt "k")).isSome ∧
      final.threads 1 = some (.call (.clearShard firstShard) k) ∧
      ((server Score .eachSecond).step 1 none final).shared.store.live .zero (txt "k") = none ∧
      ¬ (ServerOp.clearShard firstShard).Inert .eachSecond 1 final.shared := by
  have hbegin : (server Score .eachSecond).Reaches (fun _ _ _ _ => True) _
    (following .eachSecond (Node.new .eachSecond) (replacing emptyLeader)) := .refl
  have hstart : (server Score .eachSecond).Runs (fun _ _ _ _ => True) 0 _ _ _ _ :=
    (start_alone .eachSecond).mono fun _ _ _ _ => trivial
  obtain ⟨k, htask⟩ := task_loads .eachSecond
  have hstop : (server Score .eachSecond).Runs (fun _ _ _ _ => True) 2
      stopReplicating ((linked .eachSecond polled).note .loading) (.ret okReply)
      ((linked .eachSecond (ended polled)).note .loading) :=
    stop_alone rfl rfl (fun _ _ _ _ => trivial) trivial
  have hroom : (Node.new .eachSecond : Node Score).Room _ := room_new loggedSet_plain_size
  obtain ⟨s', hset, hstore, -, -⟩ := set_alone .eachSecond 3
    (s := (linked .eachSecond (ended polled)).note .loading) rfl (fun _ => rfl)
    runEngine_plain fun f hf => hroom f hf
  have hreach := (((hbegin.runs (i := 0) rfl hstart).runs (i := 1) rfl htask).runs (i := 2)
    rfl hstop).runs (i := 3) rfl (hset.mono fun _ _ _ _ => trivial)
  have hlive : (s'.store.live .zero (txt "k")).isSome := by
    rw [hstore]
    exact live_plainSet
  have hfollower : s'.follower = ended polled := by
    have hcalls := request_calls (F := Score) .eachSecond (fun _ h => h.elsewhere)
      (.single (setCommand plainWords))
    have hamid : Machine.RunsAmid (server Score .eachSecond) Eq 3 _ _ _ _ := hset.amid
    exact hamid.invariant
      (I := fun s => s.follower = ended polled) (fun s s' h hs => h ▸ hs)
      (fun o ho x r s s' hx hs => (ho.exec hx).trans hs) hcalls rfl
  have herased : (s'.store.clearShard firstShard).live .zero (txt "k") = none :=
    live_clearShard (by decide)
  refine ⟨_, k, hreach, ?_, rfl, rfl, hlive, rfl, herased, fun hinert => ?_⟩
  · change (s'.follower.spawned 1).isSome ∧ s'.follower.order 1 < s'.follower.superseded
    rw [hfollower]
    exact ⟨rfl, Nat.zero_lt_one⟩
  · have hsame : s'.store.clearShard firstShard = s'.store := (hinert none () _ rfl).1
    rw [hsame] at herased
    rw [herased] at hlive
    cases hlive

end RocketMem
